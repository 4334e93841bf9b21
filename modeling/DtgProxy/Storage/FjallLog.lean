import DtgProxy.Storage.Fjall

/-! # The keyspaces hold the log

Applying batches leaves the keyspaces a function of the log of applied batches.
Each keyspace is characterised by the change feed of that log, and applying
batches to a Fjall store is applying them to the log.
-/
namespace DtgProxy.Storage

open Kernel Lib FjallTables

namespace FjallTables

variable {changes : List ChangeRecord}

/-- The keyspaces with another applied index and other replay identities. -/
def withReplay (tables : FjallTables) (appliedIndex : ℕ)
    (identity : OrderedMap ℕ ReplayIdentity) : FjallTables :=
  { tables with appliedIndex := appliedIndex, identity := identity }

variable (tables : FjallTables)

theorem foldl_stageMutation_withReplay (changes : List ChangeRecord)
    (appliedIndex : ℕ) (identity : OrderedMap ℕ ReplayIdentity) :
    changes.foldl stageMutation (tables.withReplay appliedIndex identity) =
      (changes.foldl stageMutation tables).withReplay appliedIndex identity :=
  List.foldl_hom (fun tables : FjallTables => tables.withReplay appliedIndex identity) fun _ _ => rfl

@[simp] theorem identity_foldl_stageMutation (changes : List ChangeRecord) :
    (changes.foldl stageMutation tables).identity = tables.identity := by
  induction changes generalizing tables with
  | nil => rfl
  | cons change changes ih => exact ih (tables.stageMutation change)

@[simp] theorem appliedIndex_foldl_stageMutation
    (changes : List ChangeRecord) :
    (changes.foldl stageMutation tables).appliedIndex = tables.appliedIndex := by
  induction changes generalizing tables with
  | nil => rfl
  | cons change changes ih => exact ih (tables.stageMutation change)

/-! ## The keyspaces of a change feed -/

def historyEntry (change : ChangeRecord) : Option (HistoryKey × LogicalMutation) :=
  (historyKey change.mutation change.cursor).map fun key => (key, change.mutation)

theorem history_foldl_stageMutation (changes : List ChangeRecord) :
    (changes.foldl stageMutation tables).history =
      (changes.filterMap historyEntry).foldl (fun m entry => m.insert entry.1 entry.2)
        tables.history := by
  induction changes generalizing tables with
  | nil => rfl
  | cons change changes ih =>
    rw [List.foldl_cons, ih]
    cases hkey : historyKey change.mutation change.cursor with
    | none =>
      rw [List.filterMap_cons_none (by rw [historyEntry, hkey]; rfl)]
      simp only [stageMutation, hkey]
    | some key =>
      rw [List.filterMap_cons_some (b := (key, change.mutation)) (by rw [historyEntry, hkey]; rfl),
        List.foldl_cons]
      simp only [stageMutation, hkey]

theorem temporalIndex_foldl_stageMutation (changes : List ChangeRecord) :
    (changes.foldl stageMutation tables).temporalIndex =
      (changes.map fun change => (change.cursor, change.mutation)).foldl
        (fun m entry => m.insert entry.1 entry.2) tables.temporalIndex := by
  induction changes generalizing tables with
  | nil => rfl
  | cons change changes ih => exact ih (tables.stageMutation change)

theorem historyEntries_nodup (hordered : InOrder changes) :
    ((changes.filterMap historyEntry).map Prod.fst).Nodup := by
  rw [List.Nodup, List.pairwise_map, List.pairwise_filterMap]
  refine hordered.imp fun {a b} hab x hx y hy heq => ?_
  obtain ⟨key, hkey, rfl⟩ := Option.map_eq_some_iff.mp hx
  obtain ⟨key', hkey', rfl⟩ := Option.map_eq_some_iff.mp hy
  obtain rfl : key = key' := heq
  rw [← historyKey_cursor hkey, ← historyKey_cursor hkey'] at hab
  exact lt_irrefl _ hab

/-- The history keyspace holds the graph mutations of the feed. -/
theorem lookup_history (hordered : InOrder changes)
    (key : HistoryKey) (mutation : LogicalMutation) :
    (changes.foldl stageMutation empty).history[key]? = some mutation ↔
      ∃ change ∈ changes, historyKey change.mutation change.cursor = some key ∧
        change.mutation = mutation := by
  rw [history_foldl_stageMutation, OrderedMap.lookup_foldl_insert _ _ (historyEntries_nodup hordered)]
  simp only [empty, Std.ExtTreeMap.getElem?_empty, reduceCtorEq, and_false, or_false,
    List.mem_filterMap, historyEntry, Option.map_eq_some_iff, Prod.mk.injEq]
  constructor
  · rintro ⟨change, hmem, key', hkey, rfl, rfl⟩
    exact ⟨change, hmem, hkey, rfl⟩
  · rintro ⟨change, hmem, hkey, rfl⟩
    exact ⟨change, hmem, key, hkey, rfl, rfl⟩

/-- The history of a change feed, in the order of its keys. -/
def keyOrder (changes : List ChangeRecord) : List (HistoryKey × LogicalMutation) :=
  (changes.foldl stageMutation empty).history.toList

theorem keyOrder_ordered (changes : List ChangeRecord) :
    (keyOrder changes).Pairwise (fun a b => a.1 < b.1) :=
  OrderedMap.ordered_toList _

theorem mem_keyOrder (hordered : InOrder changes)
    {key : HistoryKey} {mutation : LogicalMutation} :
    (key, mutation) ∈ keyOrder changes ↔ ∃ change ∈ changes,
      historyKey change.mutation change.cursor = some key ∧ change.mutation = mutation := by
  rw [keyOrder, Std.ExtTreeMap.mem_toList_iff_getElem?_eq_some, lookup_history hordered]

theorem toList_temporalIndex (hordered : InOrder changes) :
    (changes.foldl stageMutation empty).temporalIndex.toList =
      changes.map fun change => (change.cursor, change.mutation) := by
  have hentries : (changes.map fun change => (change.cursor, change.mutation)).Pairwise
      (fun a b => a.1 < b.1) := List.pairwise_map.mpr hordered
  refine OrderedMap.toList_eq_of_ordered hentries fun cursor mutation => ?_
  rw [temporalIndex_foldl_stageMutation, OrderedMap.lookup_foldl_insert]
  · simp [empty]
  · exact List.pairwise_map.mpr (hentries.imp ne_of_lt)

theorem lookup_replicaMeta (changes : List ChangeRecord) (name : String) :
    (changes.foldl stageMutation tables).replicaMeta[name]? =
      (ReplicaStore.lastMetadata name (changes.map (·.mutation))).or tables.replicaMeta[name]? := by
  induction changes generalizing tables with
  | nil => rfl
  | cons change changes ih =>
    rw [List.foldl_cons, ih, List.map_cons, ReplicaStore.lastMetadata_cons, Option.or_assoc]
    congr 1
    cases hmutation : change.mutation with
    | putReplicaMetadata =>
      simp only [stageMutation, hmutation, OrderedMap.lookup_insert]
      split_ifs <;> simp
    | _ => simp [stageMutation, hmutation]

/-! ## The keyspaces of a log -/

section Log

variable [Blake3]

def push (tables : FjallTables) (batch : StoredBatch) : FjallTables :=
  { tables.writeBatch (tables.appliedIndex + 1) batch.mutations batch.replayIdentity with
    appliedIndex := tables.appliedIndex + 1 }

def ofLog (log : List StoredBatch) : FjallTables := log.foldl push empty

variable (log : List StoredBatch)

theorem ofLog_concat (batch : StoredBatch) :
    ofLog (log ++ [batch]) = (ofLog log).push batch := by
  simp [ofLog]

@[simp] theorem appliedIndex_ofLog :
    (ofLog log).appliedIndex = log.length := by
  induction log using List.reverseRecOn with
  | nil => rfl
  | append_singleton log batch ih => simp [ofLog_concat, push, ih]

/-- The keyspaces are the staged change feed with the replay identities. -/
theorem ofLog_eq :
    ofLog log = ((ReplicaStore.changesFrom 1 log).foldl stageMutation empty).withReplay
      log.length (ofLog log).identity := by
  induction log using List.reverseRecOn with
  | nil => rfl
  | append_singleton log batch ih =>
    have hlength : (ofLog log).appliedIndex + 1 = (log ++ [batch]).length := by simp
    rw [ReplicaStore.changesFrom_append, List.foldl_append, ofLog_concat]
    conv_lhs => rw [push, hlength, writeBatch, ih, foldl_stageMutation_withReplay]
    rw [push, hlength, Nat.add_comm 1 log.length, ReplicaStore.changesFrom,
      ReplicaStore.changesFrom, List.append_nil, List.length_append, List.length_singleton]
    simp only [writeBatch, identity_foldl_stageMutation]
    rfl

theorem lookup_identity (store : ReplicaStore) (index : ℕ) :
    (ofLog store.log).identity[index]? = (store.batchAt index).map StoredBatch.replayIdentity := by
  obtain ⟨binding, log⟩ := store
  induction log using List.reverseRecOn with
  | nil => simp [ofLog, empty, ReplicaStore.batchAt]
  | append_singleton log batch ih =>
    have hpush : (⟨binding, log ++ [batch]⟩ : ReplicaStore) =
        (⟨binding, log⟩ : ReplicaStore).push batch := rfl
    rw [ofLog_concat, hpush, push, appliedIndex_ofLog]
    simp only [writeBatch, identity_foldl_stageMutation, OrderedMap.lookup_insert]
    split_ifs with h
    · subst h
      rw [show log.length = (⟨binding, log⟩ : ReplicaStore).appliedIndex from rfl,
        ReplicaStore.batchAt_push_self]
      rfl
    · rw [ih]
      rcases Nat.lt_or_ge log.length index with hlt | hle
      · simp only [ReplicaStore.batchAt, ReplicaStore.push]
        rw [if_neg (by omega), if_neg (by omega), List.getElem?_eq_none (by omega),
          List.getElem?_eq_none (by simp; omega)]
      · rw [ReplicaStore.batchAt_push_of_le hle]

end Log

end FjallTables

/-! ## Applying batches -/

namespace FjallStore

variable [Blake3]
variable {fjall : FjallStore}
variable {store : ReplicaStore} {log : ReplicaStore.Staging}

/-- The store holds the log and accepts operations. -/
structure Holds (fjall : FjallStore) (log : List StoredBatch) : Prop where
  owned : fjall.owner = fjall.binding
  idle : fjall.restoreInProgress = none
  tables : fjall.tables = FjallTables.ofLog log

theorem holds_openNew {binding : ReplicaBinding}
    (h : openNew binding = .ok fjall) : fjall.Holds [] ∧ fjall.binding = binding := by
  unfold openNew at h
  split_ifs at h
  cases h
  exact ⟨⟨rfl, rfl, rfl⟩, rfl⟩

omit [Blake3] in
theorem writeBatch_withApplied (tables : FjallTables) (applied index : ℕ)
    (mutations : List LogicalMutation) (identity : ReplayIdentity) :
    ({ tables with appliedIndex := applied } : FjallTables).writeBatch index mutations identity =
      { tables.writeBatch index mutations identity with appliedIndex := applied } := by
  have h := fun changes =>
    foldl_stageMutation_withReplay tables changes applied tables.identity
  simp only [withReplay] at h
  simp only [writeBatch]
  rw [h]
  simp

/-- Consecutive batches are pushed one after the other. -/
private theorem foldl_writeBatch (batches : List CommittedShardBatch) (tables : FjallTables)
    (hindex : ∀ i batch, batches[i]? = some batch → batch.raftIndex = tables.appliedIndex + 1 + i) :
    ({ batches.foldl (fun tables batch => tables.writeBatch batch.raftIndex batch.mutations
        ⟨batch.raftTerm, batch.commandId, batch.mutationDigest⟩) tables with
      appliedIndex := tables.appliedIndex + batches.length } : FjallTables) =
      (batches.map CommittedShardBatch.stored).foldl push tables := by
  suffices h : ∀ (batches : List CommittedShardBatch) (tables : FjallTables) (start : ℕ),
      (∀ i batch, batches[i]? = some batch → batch.raftIndex = start + 1 + i) →
      ({ batches.foldl (fun tables batch => tables.writeBatch batch.raftIndex batch.mutations
          ⟨batch.raftTerm, batch.commandId, batch.mutationDigest⟩) tables with
        appliedIndex := start + batches.length } : FjallTables) =
        (batches.map CommittedShardBatch.stored).foldl push
          { tables with appliedIndex := start } from h batches tables _ hindex
  intro batches
  induction batches with
  | nil => intros; rfl
  | cons batch batches ih =>
    intro tables start hindex
    have hfirst : batch.raftIndex = start + 1 := hindex 0 batch rfl
    rw [List.foldl_cons, List.map_cons, List.foldl_cons, List.length_cons,
      show start + (batches.length + 1) = (start + 1) + batches.length by omega, ih]
    · congr 1
      simp only [push]
      rw [writeBatch_withApplied tables start, hfirst]
      rfl
    · intro i other hother
      rw [hindex (i + 1) other hother]
      omega

/-- The batched apply follows the apply on the log. -/
structure Tracks (store : ReplicaStore) (acc : Pending) (log : ReplicaStore.Staging) : Prop where
  applied : acc.applied = store.appliedIndex + log.pending.length
  receipts : acc.receipts = log.receipts
  batches : acc.batches.map CommittedShardBatch.stored = log.pending
  index : ∀ i batch, acc.batches[i]? = some batch → batch.raftIndex = store.appliedIndex + 1 + i

theorem stageBatch_tracks (hfjall : fjall.Holds store.log) {acc : Pending}
    (h : Tracks store acc log) (batch : CommittedShardBatch) :
    (∃ e, fjall.stageBatch acc batch = .error e ∧ store.stage log batch = .error e) ∨
      ∃ acc' log', fjall.stageBatch acc batch = .ok acc' ∧ store.stage log batch = .ok log' ∧
        Tracks store acc' log' := by
  unfold stageBatch ReplicaStore.stage
  rw [h.applied, hfjall.tables, lookup_identity]
  dsimp only
  split_ifs with hle hnext
  · cases hbatch : store.batchAt batch.raftIndex with
    | none => exact Or.inl ⟨_, rfl, rfl⟩
    | some =>
      simp only [Option.map_some, StoredBatch.replayIdentity]
      split_ifs with hreplay
      · refine Or.inr ⟨_, _, rfl, rfl, ⟨rfl, ?_, h.batches, h.index⟩⟩
        rw [h.receipts]
      · exact Or.inl ⟨_, rfl, rfl⟩
  · exact Or.inl ⟨_, rfl, rfl⟩
  · have hlength : acc.batches.length = log.pending.length := by
      rw [← h.batches, List.length_map]
    refine Or.inr ⟨_, _, rfl, rfl, ⟨?_, ?_, ?_, ?_⟩⟩
    · simp only [List.length_append, List.length_singleton]
      omega
    · rw [h.receipts]
    · rw [List.map_append, h.batches]
      rfl
    · intro i other hother
      rw [List.getElem?_append] at hother
      split_ifs at hother with hi
      · exact h.index i other hother
      · rw [List.getElem?_singleton] at hother
        split_ifs at hother with hzero
        cases hother
        omega

theorem foldlM_stageBatch_tracks (hfjall : fjall.Holds store.log)
    (batches : List CommittedShardBatch) {acc : Pending} (h : Tracks store acc log) :
    (∃ e, batches.foldlM fjall.stageBatch acc = .error e ∧
        batches.foldlM store.stage log = .error e) ∨
      ∃ acc' log', batches.foldlM fjall.stageBatch acc = .ok acc' ∧
        batches.foldlM store.stage log = .ok log' ∧ Tracks store acc' log' := by
  induction batches generalizing acc log with
  | nil => exact Or.inr ⟨acc, log, rfl, rfl, h⟩
  | cons batch batches ih =>
    rw [List.foldlM_cons, List.foldlM_cons]
    rcases stageBatch_tracks hfjall h batch with ⟨e, hl, hr⟩ | ⟨acc', log', hl, hr, htracks⟩
    · rw [hl, hr]
      exact Or.inl ⟨e, rfl, rfl⟩
    · rw [hl, hr]
      exact ih htracks

theorem commitPending_eq {acc : Pending} (h : Tracks store acc log) :
    commitPending (ofLog store.log) acc =
      ofLog (store.log ++ log.pending) := by
  unfold commitPending
  split_ifs with hempty
  · rw [← h.batches, hempty, List.map_nil, List.append_nil]
  · have hlength : acc.applied = (ofLog store.log).appliedIndex + acc.batches.length := by
      rw [h.applied, ← h.batches, List.length_map, appliedIndex_ofLog]
      rfl
    rw [hlength, foldl_writeBatch, h.batches, ofLog, ofLog,
      List.foldl_append]
    intro i batch hbatch
    rw [appliedIndex_ofLog]
    exact h.index i batch hbatch

omit [Blake3] in
private theorem verify_batches (howned : fjall.owner = fjall.binding)
    (batches : List CommittedShardBatch) :
    batches.foldlM (fun _ batch => fjall.verifyBinding batch.binding) () =
      match batches.find? (fun batch => decide (batch.binding ≠ fjall.binding)) with
      | some batch => .error (.staleBinding fjall.binding batch.binding)
      | none => .ok () := by
  induction batches with
  | nil => rfl
  | cons batch batches ih =>
    rw [List.foldlM_cons, verifyBinding, if_neg (not_not.mpr howned)]
    by_cases hbinding : batch.binding = fjall.binding
    · rw [if_neg (not_not.mpr hbinding), List.find?_cons_of_neg (by simpa using hbinding)]
      exact ih
    · rw [if_pos hbinding, List.find?_cons_of_pos (by simpa using hbinding)]
      rfl

/-- Applying batches to a Fjall store is applying them to its log. -/
theorem applyBatches_holds {log : List StoredBatch} (h : fjall.Holds log)
    (batches : List CommittedShardBatch) :
    fjall.applyBatches batches =
      ((⟨fjall.binding, log⟩ : ReplicaStore).applyBatches batches).map fun result =>
        (result.1, { fjall with tables := ofLog result.2.log }) := by
  unfold applyBatches ReplicaStore.applyBatches
  split_ifs with hempty
  · subst hempty
    have hself : fjall = { fjall with tables := ofLog log } := by rw [← h.tables]
    simpa [pure, Except.pure, bind, Except.bind, Except.map] using hself
  · rw [verify_batches h.owned]
    cases batches.find? (fun batch => decide (batch.binding ≠ fjall.binding)) with
    | some => rfl
    | none =>
      rw [ensureNoRestoreInProgress, h.idle]
      have htracks : Tracks (⟨fjall.binding, log⟩ : ReplicaStore)
          ⟨fjall.tables.appliedIndex, [], []⟩ ⟨[], []⟩ :=
        ⟨by rw [h.tables, appliedIndex_ofLog]; rfl, rfl, rfl, by simp⟩
      rcases @foldlM_stageBatch_tracks _ fjall ⟨fjall.binding, log⟩ _ h batches _ htracks with
        ⟨e, hl, hr⟩ | ⟨acc, staging, hl, hr, hacc⟩
      · simp only [hl, hr]
        rfl
      · have hcommit := commitPending_eq hacc
        rw [← h.tables] at hcommit
        simp only [hl, hr, Except.map, bind, Except.bind, hcommit, hacc.receipts]

end FjallStore

end DtgProxy.Storage

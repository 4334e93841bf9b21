import DtgProxy.Storage.Store

/-! # Read views of a store

The change feed lists every applied mutation under its Raft index and its
ordinal in the batch, and is read page by page.  Point reads return the version
with the greatest transaction time and version among those visible at a time.
-/
namespace DtgProxy.Storage

open Kernel Lib

/-- A position in the change feed, ordered by index and then by ordinal. -/
@[ext] structure ChangeCursor where
  raftIndex : ℕ
  mutationOrdinal : ℕ
deriving DecidableEq, Repr

namespace ChangeCursor

instance : LinearOrder ChangeCursor :=
  LinearOrder.lift' (fun c => toLex (c.raftIndex, c.mutationOrdinal)) (by
    rintro ⟨i, o⟩ ⟨j, p⟩ h
    have h' : (i, o) = (j, p) := h
    cases h'
    rfl)

theorem lt_iff (a b : ChangeCursor) :
    a < b ↔ a.raftIndex < b.raftIndex ∨
      (a.raftIndex = b.raftIndex ∧ a.mutationOrdinal < b.mutationOrdinal) := by
  change toLex (a.raftIndex, a.mutationOrdinal) < toLex (b.raftIndex, b.mutationOrdinal) ↔ _
  rw [Prod.Lex.toLex_lt_toLex]

end ChangeCursor

@[ext] structure ChangeRecord where
  cursor : ChangeCursor
  mutation : LogicalMutation
deriving DecidableEq

/-- The changes stand in the order of their cursors. -/
abbrev InOrder (changes : List ChangeRecord) : Prop :=
  changes.Pairwise (fun a b => a.cursor < b.cursor)

structure ChangesRead where
  after : Option ChangeCursor
  throughIndex : ℕ
  limit : ℕ

def ChangesRead.new (after : Option ChangeCursor) (throughIndex limit : ℕ) :
    Except StorageError ChangesRead :=
  if after.any (fun cursor => decide (throughIndex < cursor.raftIndex)) || limit == 0 then
    .error (.invalidMutation "change bounds must be ordered and nonempty")
  else .ok ⟨after, throughIndex, limit⟩

def ChangesRead.includes (request : ChangesRead) (cursor : ChangeCursor) : Bool :=
  request.after.all (fun after => decide (after < cursor)) &&
    decide (cursor.raftIndex ≤ request.throughIndex)

structure ChangePage where
  rows : List ChangeRecord
  nextAfter : Option ChangeCursor
deriving DecidableEq

namespace ReplicaStore

variable {change : ChangeRecord}
variable {store : ReplicaStore}

/-- The feed entries of one batch. -/
def batchChanges (index : ℕ) (batch : StoredBatch) : List ChangeRecord :=
  batch.mutations.zipIdx.map (fun (mutation, ordinal) => ⟨⟨index, ordinal⟩, mutation⟩)

/-- The feed entries of batches applied from `index` on. -/
def changesFrom (index : ℕ) : List StoredBatch → List ChangeRecord
  | [] => []
  | batch :: batches => batchChanges index batch ++ changesFrom (index + 1) batches

def changes (store : ReplicaStore) : List ChangeRecord := changesFrom 1 store.log

/-- Opens a read view: the fence must name the store's binding and index. -/
def verifyFence (store : ReplicaStore) (binding : ReplicaBinding) (appliedIndex : ℕ) :
    Except StorageError Unit :=
  if binding ≠ store.binding then .error (.staleBinding store.binding binding)
  else if appliedIndex ≠ store.appliedIndex then
    .error (.readFenceUnavailable appliedIndex store.appliedIndex)
  else .ok ()

def changesPage (store : ReplicaStore) (request : ChangesRead) : ChangePage :=
  let matching := store.changes.filter (fun change => request.includes change.cursor)
  let rows := matching.take request.limit
  ⟨rows, if request.limit < matching.length then rows.getLast?.map (·.cursor) else none⟩

theorem changesFrom_append (index : ℕ) (first rest : List StoredBatch) :
    changesFrom index (first ++ rest) =
      changesFrom index first ++ changesFrom (index + first.length) rest := by
  induction first generalizing index with
  | nil => rfl
  | cons batch first ih =>
    rw [List.cons_append, changesFrom, changesFrom, ih, List.append_assoc, List.length_cons,
      Nat.add_right_comm, Nat.add_assoc]

theorem changes_push (store : ReplicaStore) (batch : StoredBatch) :
    (store.push batch).changes = store.changes ++ batchChanges (store.appliedIndex + 1) batch := by
  rw [changes, push, changesFrom_append, changesFrom, changesFrom, List.append_nil,
    Nat.add_comm 1]
  rfl

theorem mem_batchChanges {index : ℕ} {batch : StoredBatch} :
    change ∈ batchChanges index batch ↔
      change.cursor.raftIndex = index ∧
        batch.mutations[change.cursor.mutationOrdinal]? = some change.mutation := by
  obtain ⟨⟨i, o⟩, m⟩ := change
  simp only [batchChanges, List.mem_map, Prod.exists, List.mem_zipIdx_iff_getElem?,
    ChangeRecord.mk.injEq, ChangeCursor.mk.injEq]
  constructor
  · rintro ⟨m', o', hget, ⟨rfl, rfl⟩, rfl⟩
    exact ⟨rfl, hget⟩
  · rintro ⟨rfl, hget⟩
    exact ⟨m, o, hget, ⟨rfl, rfl⟩, rfl⟩

theorem index_le_of_mem_changesFrom {index : ℕ} {batches : List StoredBatch}
    (h : change ∈ changesFrom index batches) :
    index ≤ change.cursor.raftIndex := by
  induction batches generalizing index with
  | nil => cases h
  | cons batch batches ih =>
    rcases List.mem_append.mp h with h | h
    · exact (mem_batchChanges.mp h).1.ge
    · exact le_trans (Nat.le_succ index) (ih h)

theorem changesFrom_ordered (index : ℕ) (batches : List StoredBatch) :
    InOrder (changesFrom index batches) := by
  induction batches generalizing index with
  | nil => exact List.Pairwise.nil
  | cons batch batches ih =>
    refine List.pairwise_append.mpr ⟨?_, ih (index + 1), ?_⟩
    · rw [batchChanges, List.pairwise_map, List.pairwise_iff_getElem]
      intro i j hi hj hij
      simp [ChangeCursor.lt_iff, hij]
    · intro a ha b hb
      rw [ChangeCursor.lt_iff]
      have := (mem_batchChanges.mp ha).1
      have := index_le_of_mem_changesFrom hb
      omega

theorem changes_ordered (store : ReplicaStore) : InOrder store.changes :=
  changesFrom_ordered 1 store.log

/-- The feed holds exactly the stored mutations under their cursors. -/
theorem mem_changes :
    change ∈ store.changes ↔ ∃ batch, store.batchAt change.cursor.raftIndex = some batch ∧
      batch.mutations[change.cursor.mutationOrdinal]? = some change.mutation := by
  suffices h : ∀ (index : ℕ) (batches : List StoredBatch), change ∈ changesFrom index batches ↔
      ∃ batch, index ≤ change.cursor.raftIndex ∧
        batches[change.cursor.raftIndex - index]? = some batch ∧
        batch.mutations[change.cursor.mutationOrdinal]? = some change.mutation by
    rw [changes, h]
    simp only [batchAt]
    constructor
    · rintro ⟨batch, hle, hbatch, hget⟩
      exact ⟨batch, by rw [if_neg (by omega), hbatch], hget⟩
    · rintro ⟨batch, hbatch, hget⟩
      split_ifs at hbatch with hzero
      exact ⟨batch, by omega, hbatch, hget⟩
  intro index batches
  induction batches generalizing index with
  | nil => simp [changesFrom]
  | cons batch batches ih =>
    rw [changesFrom, List.mem_append, mem_batchChanges, ih]
    constructor
    · rintro (⟨hindex, hget⟩ | ⟨b, hle, hb, hget⟩)
      · exact ⟨batch, hindex.ge, by simp [hindex], hget⟩
      · refine ⟨b, by omega, ?_, hget⟩
        rw [show change.cursor.raftIndex - index =
          (change.cursor.raftIndex - (index + 1)) + 1 by omega]
        exact hb
    · rintro ⟨b, hle, hb, hget⟩
      rcases Nat.eq_or_lt_of_le hle with heq | hlt
      · left
        rw [← heq, Nat.sub_self] at hb
        cases hb
        exact ⟨heq.symm, hget⟩
      · right
        rw [show change.cursor.raftIndex - index =
          (change.cursor.raftIndex - (index + 1)) + 1 by omega] at hb
        exact ⟨b, hlt, hb, hget⟩

/-- A longer log only adds changes. -/
theorem mem_changes_of_extends {store' : ReplicaStore} (h : store.log <+: store'.log)
    (hmem : change ∈ store.changes) : change ∈ store'.changes := by
  obtain ⟨rest, hrest⟩ := h
  rw [changes, ← hrest, changesFrom_append]
  exact List.mem_append_left _ hmem

theorem index_pos_of_mem_changes (h : change ∈ store.changes) : 0 < change.cursor.raftIndex :=
  index_le_of_mem_changesFrom h

theorem map_mutation_changesFrom (index : ℕ) (batches : List StoredBatch) :
    (changesFrom index batches).map (·.mutation) = batches.flatMap (·.mutations) := by
  induction batches generalizing index with
  | nil => rfl
  | cons batch batches ih =>
    rw [changesFrom, List.map_append, ih, List.flatMap_cons, batchChanges, List.map_map]
    congr 1
    exact List.zipIdx_map_fst 0 batch.mutations

/-- Every mutation is one entry of the feed. -/
theorem map_mutation_changes (store : ReplicaStore) :
    store.changes.map (·.mutation) = store.mutations :=
  map_mutation_changesFrom 1 store.log

theorem index_le_of_mem_changes
    (h : change ∈ store.changes) : change.cursor.raftIndex ≤ store.appliedIndex := by
  obtain ⟨batch, hbatch, -⟩ := mem_changes.mp h
  unfold batchAt at hbatch
  split_ifs at hbatch with hzero
  obtain ⟨hlt, -⟩ := List.getElem?_eq_some_iff.mp hbatch
  unfold appliedIndex
  omega

end ReplicaStore

end DtgProxy.Storage

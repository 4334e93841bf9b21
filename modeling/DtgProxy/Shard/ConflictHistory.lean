import DtgProxy.Shard.BatchRefinement
import DtgProxy.Transaction.Conflict

/-! # Write conflicts against the history

A transaction's writes are checked against what was committed after its snapshot.
The shard walks its change feed page by page; the transaction crate compares lists
of interval writes.  The walk meets every later change once, and on it the two
checks find the same conflicts.
-/
namespace DtgProxy.Shard

open Kernel Lib Storage

/-! ## What the walk visits -/

/-- The changes of the indexes after `low` up to `high`. -/
def changesBetween (store : ReplicaStore) (low high : ℕ) : List ChangeRecord :=
  store.changes.filter fun change =>
    decide (low < change.cursor.raftIndex ∧ change.cursor.raftIndex ≤ high)

theorem changesAfter_eq_changesBetween {store : ReplicaStore}
    (hordinals : ∀ change ∈ store.changes, change.cursor.mutationOrdinal ≤ u64Max) (index : ℕ) :
    changesAfter store ⟨index, u64Max⟩ = changesBetween store index store.appliedIndex := by
  apply List.filter_congr
  intro change hchange
  have hordinal := hordinals change hchange
  have hindex := ReplicaStore.index_le_of_mem_changes hchange
  simp only [Option.mem_def, Option.some.injEq, forall_eq', ChangeCursor.lt_iff]
  exact decide_eq_decide.mpr ⟨fun h => by omega, fun h => .inl h.1⟩

/-- Whatever the page size, the visitor meets the changes after the snapshot in
cursor order, each once, and a history too long for the page budget is an error.
The shard's own walk is the one with its page limit. -/
theorem forEachChangeBy_visits {σ : Type} {pageLimit : ℕ} (hlimit : 0 < pageLimit)
    (store : ReplicaStore)
    (hordinals : ∀ change ∈ store.changes, change.cursor.mutationOrdinal ≤ u64Max)
    {snapshot : ℕ} (hsnapshot : snapshot < store.appliedIndex)
    (visit : σ → ChangeRecord → Except ShardError σ) (s : σ) :
    (changesBetween store snapshot store.appliedIndex).Pairwise (fun a b => a.cursor < b.cursor) ∧
      forEachChangeBy pageLimit store.binding store store.appliedIndex
          (some ⟨snapshot, u64Max⟩) visit s =
        (do
          let s' ← ((changesBetween store snapshot store.appliedIndex).take
            (historyPageBudget * pageLimit)).foldlM visit s
          if historyPageBudget * pageLimit <
              (changesBetween store snapshot store.appliedIndex).length then
            .error (corruptIntentHistory "durable change history exceeded the page budget")
          else .ok s') ∧
      ∀ single : ChangeRecord → Except ShardError Unit,
        forEachChange store.binding store store.appliedIndex (some ⟨snapshot, u64Max⟩) single =
          forEachChangeBy historyPageLimit store.binding store store.appliedIndex
            (some ⟨snapshot, u64Max⟩) (fun _ => single) () := by
  refine ⟨store.changes_ordered.filter _, ?_, fun _ => rfl⟩
  rw [← changesAfter_eq_changesBetween hordinals]
  exact forEachChangeBy_eq store hsnapshot.le hlimit visit s

/-- Three changes, the first two of one batch. -/
def sampleHistory : ReplicaStore :=
  ⟨sampleBinding, [
    ⟨1, 1, [sampleWrite 2, sampleWrite 3]⟩,
    ⟨1, 2, [sampleWrite 4]⟩]⟩

/-- Pages of one row split the batch and still every change is met in order. -/
theorem sampleHistory_visits :
    forEachChangeBy 1 sampleBinding sampleHistory 2 (some ⟨0, u64Max⟩)
        (fun seen change => .ok (seen ++ [change.cursor])) [] =
      .ok [⟨1, 0⟩, ⟨1, 1⟩, ⟨2, 0⟩] := by
  obtain ⟨-, hvisits, -⟩ := forEachChangeBy_visits one_pos sampleHistory (by decide +kernel)
    (by decide : 0 < sampleHistory.appliedIndex) (fun seen change => .ok (seen ++ [change.cursor])) []
  exact hvisits.trans (by decide +kernel)

/-! ## The shard's check and the detector -/

open Transaction

variable {candidate : List LogicalMutation} {startTime : TransactionTime}
  {history : List ChangeRecord}

/-- The shard's visitor refuses a change of the history exactly if the detector does. -/
theorem visitConflict_history_eq_ok :
    history.foldlM (fun _ => ShardStateMachine.visitConflict startTime candidate) () = .ok () ↔
      detectMutationConflicts candidate (history.map (·.mutation)) startTime = .ok () := by
  rw [Result.foldlM_visit_eq_ok, detectMutationConflicts_eq_ok, List.forall_mem_map]
  exact forall₂_congr fun change _ => ShardStateMachine.visitConflict_eq_ok

theorem visitConflict_history_eq_error {error : ShardError}
    (h : history.foldlM (fun _ => ShardStateMachine.visitConflict startTime candidate) () =
      .error error) : error = .writeConflict := by
  obtain ⟨change, -, hvisit⟩ := Result.exists_of_foldlM_visit_eq_error h
  unfold ShardStateMachine.visitConflict at hvisit
  split_ifs at hvisit
  cases hvisit
  rfl

namespace ShardStateMachine

/-- The shard refuses a transaction for a conflict with another prepared one, or
for what the detector finds in the changes after the snapshot that a scan may
read; a longer history without such a conflict is refused as too long. -/
theorem validateWriteConflicts_eq {machine : ShardStateMachine}
    (hm : machine.Aligned) (transactionId : TransactionId) (startTime : TransactionTime)
    {snapshotAppliedIndex : UInt64} (hsnapshot : snapshotAppliedIndex.toNat ≤ machine.appliedIndex)
    (candidate : List LogicalMutation) :
    machine.validateWriteConflicts transactionId startTime snapshotAppliedIndex candidate =
      let history := (changesAfter machine.stateStore
        ⟨snapshotAppliedIndex.toNat, u64Max⟩).map (·.mutation)
      if OrderedMap.anyValue machine.activeIntents fun intent =>
          decide (intent.transactionId ≠ transactionId) &&
            mutationsConflict candidate intent.mutations then .error .writeConflict
      else if detectMutationConflicts candidate (history.take historyRecordBudget) startTime =
          .error .writeConflict then .error .writeConflict
      else if historyRecordBudget < history.length then
        .error (corruptIntentHistory "durable change history exceeded the page budget")
      else .ok () := by
  unfold validateWriteConflicts
  rw [hm.bound, hm.applied] at *
  refine if_congr Iff.rfl rfl ?_
  rw [forEachChange_eq _ hsnapshot, ← List.map_take, List.length_map]
  -- Neither check fails in another way, so both stop or both read to the budget.
  cases hdetected : detectMutationConflicts candidate (((changesAfter machine.stateStore
      ⟨snapshotAppliedIndex.toNat, u64Max⟩).take historyRecordBudget).map (·.mutation))
      startTime with
  | ok =>
    rw [visitConflict_history_eq_ok.mpr hdetected]
    rfl
  | error error =>
    cases detectMutationConflicts_eq_error hdetected
    cases hvisit : ((changesAfter machine.stateStore ⟨snapshotAppliedIndex.toNat, u64Max⟩).take
        historyRecordBudget).foldlM (fun _ => visitConflict startTime candidate) () with
    | ok =>
      rw [visitConflict_history_eq_ok.mp hvisit] at hdetected
      cases hdetected
    | error =>
      cases visitConflict_history_eq_error hvisit
      rfl

/-- Over a history that a scan may read, the shard's check and the detector agree:
a transaction is refused for a conflict with another prepared one or for what the
detector reports, and passes otherwise. -/
theorem writeConflict_iff_detected {machine : ShardStateMachine} (hm : machine.Aligned)
    (transactionId : TransactionId) (startTime : TransactionTime) {snapshotAppliedIndex : UInt64}
    (hsnapshot : snapshotAppliedIndex.toNat ≤ machine.appliedIndex)
    (candidate : List LogicalMutation)
    (hbudget : (changesAfter machine.stateStore ⟨snapshotAppliedIndex.toNat, u64Max⟩).length ≤
      historyRecordBudget) :
    (machine.validateWriteConflicts transactionId startTime snapshotAppliedIndex candidate =
        .error .writeConflict ↔
      (∃ (id : TransactionId) (intent : ParticipantIntent),
        machine.activeIntents[id]? = some intent ∧ intent.transactionId ≠ transactionId ∧
          mutationsConflict candidate intent.mutations = true) ∨
        detectMutationConflicts candidate ((changesAfter machine.stateStore
          ⟨snapshotAppliedIndex.toNat, u64Max⟩).map (·.mutation)) startTime =
          .error .writeConflict) ∧
      (machine.validateWriteConflicts transactionId startTime snapshotAppliedIndex candidate ≠
        .error .writeConflict →
        machine.validateWriteConflicts transactionId startTime snapshotAppliedIndex candidate =
          .ok ()) := by
  have hopposed := OrderedMap.anyValue_iff machine.activeIntents fun intent =>
    decide (intent.transactionId ≠ transactionId) && mutationsConflict candidate intent.mutations
  simp only [Bool.and_eq_true, decide_eq_true_eq] at hopposed
  rw [validateWriteConflicts_eq hm _ _ hsnapshot, ← hopposed]
  dsimp only
  rw [List.take_of_length_le (by rwa [List.length_map]), List.length_map,
    if_neg (not_lt.mpr hbudget)]
  split_ifs with hany hdetected
  · exact ⟨iff_of_true rfl (.inl hany), fun h => absurd rfl h⟩
  · exact ⟨iff_of_true rfl (.inr hdetected), fun h => absurd rfl h⟩
  · exact ⟨iff_of_false (fun h => nomatch h) (not_or.mpr ⟨hany, hdetected⟩), fun _ => rfl⟩

/-- After one write of the sample vertex a transaction that started before it is
refused, as the detector says. -/
theorem sampleWrite_refused :
    let machine : ShardStateMachine := { empty sampleBinding with
      stateStore := ⟨sampleBinding, [⟨1, 1, [sampleWrite 2]⟩]⟩
      appliedIndex := 1 }
    machine.validateWriteConflicts 1 1 0
      [sampleWrite 3] = .error .writeConflict := by
  refine (writeConflict_iff_detected ⟨rfl, rfl⟩ _ _ (Nat.zero_le _) _ ?_).1.mpr (.inr ?_)
  · decide +kernel
  · decide +kernel

/-- With one no-op more than a scan may read, the shard refuses every first
transaction on the snapshot at index zero although the detector finds nothing. -/
theorem idleShard_refuses_undetected :
    letI := foldHash
    let machine := ((empty sampleBinding).run (idleEvents (historyRecordBudget + 1))).2
    detectMutationConflicts [sampleWrite 3]
        ((changesAfter machine.stateStore ⟨0, u64Max⟩).map (·.mutation)) 1 = .ok () ∧
      machine.validateWriteConflicts 1 1 0
          [sampleWrite 3] =
        .error (corruptIntentHistory "durable change history exceeded the page budget") := by
  let _ := foldHash
  intro machine
  have hidle : machine.Idle sampleBinding (historyRecordBudget + 1) :=
    idle_run sampleBinding (by decide)
  have hdetected : ∀ history : List ChangeRecord,
      (∀ change ∈ history, change ∈ changesAfter machine.stateStore ⟨0, u64Max⟩) →
        detectMutationConflicts [sampleWrite 3] (history.map (·.mutation))
          1 = .ok () := by
    intro history hhistory
    refine detectMutationConflicts_eq_ok.mpr (List.forall_mem_map.mpr fun change hchange => ?_)
    intro time htime
    rw [hidle.graphMutationTime_eq_none (mem_changesAfter.mp (hhistory change hchange)).1] at htime
    cases htime
  have hactive : ¬(OrderedMap.anyValue machine.activeIntents fun intent =>
      decide (intent.transactionId ≠ 1) &&
        mutationsConflict [sampleWrite 3] intent.mutations) = true := by
    rw [OrderedMap.anyValue_iff, hidle.active]
    simp
  refine ⟨hdetected _ fun _ h => h, ?_⟩
  rw [validateWriteConflicts_eq hidle.toAligned _ _ (Nat.zero_le _)]
  rw [if_neg hactive, ← List.map_take, UInt64.toNat_zero,
    hdetected _ fun _ h => List.mem_of_mem_take h, List.length_map, hidle.length_changesAfter]
  rfl

end ShardStateMachine

end DtgProxy.Shard

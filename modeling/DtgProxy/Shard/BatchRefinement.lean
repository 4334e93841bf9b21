import DtgProxy.Shard.Runs

/-! # Batches against single deliveries

A batch that falls back to single deliveries is the same as those.  An atomic
batch checks every commit against the history before the batch, so it differs
from single deliveries exactly where the batch's own writes would have made that
history too long to scan.
-/
namespace DtgProxy.Shard

open Kernel Lib Storage ReplicaStore

section Machine

variable [Blake3] {ids : OrderedMap TransactionId Unit} {prior : List LogicalMutation}
  {written : ℕ}

namespace ShardStateMachine

variable {transaction : CommitSingleShardTransaction} {binding : ReplicaBinding}
variable {later : ShardStateMachine} {commits : List Commit} {count : ℕ}

/-- Some commit has more changes after its snapshot than a scan may read, once
the commits before it are written. -/
def ScanOverflows (machine : ShardStateMachine) : ℕ → List Commit → Prop
  | _, [] => False
  | written, commit :: commits =>
    historyRecordBudget < (changesAfter machine.stateStore
        ⟨commit.2.snapshotAppliedIndex.toNat, u64Max⟩).length + written ∨
      machine.ScanOverflows (written + (storedCommit commit).mutations.length) commits

instance (machine : ShardStateMachine) (written : ℕ) (commits : List Commit) :
    Decidable (machine.ScanOverflows written commits) := by
  induction commits generalizing written with
  | nil => exact inferInstanceAs (Decidable False)
  | cons commit commits ih => exact @instDecidableOr _ _ _ (ih _)

variable {machine : ShardStateMachine}

/-- A later machine whose feed has `written` more changes. -/
def Grows (machine later : ShardStateMachine) (written : ℕ) : Prop :=
  ∃ more, later.stateStore.changes = machine.stateStore.changes ++ more ∧
    more.length = written ∧ ∀ change ∈ more, machine.appliedIndex < change.cursor.raftIndex

omit [Blake3] in
theorem Grows.refl (machine : ShardStateMachine) : machine.Grows machine 0 :=
  ⟨[], (List.append_nil _).symm, rfl, fun _ h => nomatch h⟩

omit [Blake3] in
theorem Grows.extend (h : machine.Grows later written) (hlater : later.Aligned)
    (hle : machine.appliedIndex ≤ later.appliedIndex) (batch : StoredBatch) :
    machine.Grows (later.extend batch) (written + batch.mutations.length) := by
  obtain ⟨more, hchanges, hlength, hindex⟩ := h
  refine ⟨more ++ batchChanges (later.stateStore.appliedIndex + 1) batch, ?_, ?_, ?_⟩
  · rw [← List.append_assoc, ← hchanges]
    exact changes_push _ _
  · simp [batchChanges, hlength]
  · intro change hchange
    rcases List.mem_append.mp hchange with hmem | hmem
    · exact hindex change hmem
    · rw [(mem_batchChanges.mp hmem).1, ← hlater.applied]
      omega

omit [Blake3] in
/-- A snapshot of the earlier machine is followed by all that was added since. -/
theorem Grows.length_changesAfter {snapshot : ℕ} (h : machine.Grows later written)
    (hsnapshot : snapshot ≤ machine.appliedIndex) :
    (changesAfter later.stateStore ⟨snapshot, u64Max⟩).length =
      (changesAfter machine.stateStore ⟨snapshot, u64Max⟩).length + written := by
  obtain ⟨more, hchanges, hlength, hindex⟩ := h
  have hall : Paging.rest (·.cursor) more (some ⟨snapshot, u64Max⟩) = more := by
    refine List.filter_eq_self.mpr fun change hchange => decide_eq_true ?_
    intro cursor hcursor
    cases hcursor
    rw [ChangeCursor.lt_iff]
    have := hindex change hchange
    exact .inl (by dsimp only; omega)
  have hsplit : changesAfter later.stateStore ⟨snapshot, u64Max⟩ =
      changesAfter machine.stateStore ⟨snapshot, u64Max⟩ ++
        Paging.rest (·.cursor) more (some ⟨snapshot, u64Max⟩) := by
    rw [changesAfter, hchanges]
    exact List.filter_append _ _
  rw [hsplit, hall, List.length_append, hlength]

/-! ## One commit delivered on its own -/

omit [Blake3] in
/-- An unopposed transaction whose scan runs out of pages fails. -/
theorem validateWriteConflicts_exhausted (hm : machine.Aligned) {transactionId : TransactionId}
    {startTime : TransactionTime} {snapshotAppliedIndex : UInt64}
    {candidate : List LogicalMutation}
    (hsnapshot : snapshotAppliedIndex.toNat ≤ machine.appliedIndex)
    (hfree : machine.Unopposed transactionId startTime snapshotAppliedIndex candidate)
    (hlong : historyRecordBudget <
      (changesAfter machine.stateStore ⟨snapshotAppliedIndex.toNat, u64Max⟩).length) :
    machine.validateWriteConflicts transactionId startTime snapshotAppliedIndex candidate =
      .error (corruptIntentHistory "durable change history exceeded the page budget") := by
  cases hcheck : machine.validateWriteConflicts transactionId startTime snapshotAppliedIndex
      candidate with
  | ok =>
    have hshort := ((validateWriteConflicts_eq_ok hm hsnapshot).mp hcheck).2
    omega
  | error =>
    unfold validateWriteConflicts at hcheck
    rw [opposed_eq_false.mpr hfree.prepared] at hcheck
    rw [hm.bound, hm.applied] at *
    rcases forEachChange_eq_error _ hsnapshot hcheck with ⟨change, hchange, hvisit⟩ | ⟨-, -, herror⟩
    · rw [visitConflict_eq_ok.mpr (hfree.committed change hchange)] at hvisit
      cases hvisit
    · rw [herror]

/-- A transaction without a receipt is checked for conflicts only. -/
theorem validateTransactionAcceptance_new
    (hnew : machine.record (.singleShardTransaction transaction.transactionId) = none) :
    machine.validateTransactionAcceptance (.commitSingleShardTransaction transaction) =
      (machine.validateWriteConflicts transaction.transactionId transaction.startTime
        transaction.snapshotAppliedIndex transaction.mutations).map fun _ => .none := by
  have hdurable : machine.singleShardTransactionIsDurable transaction = .ok false := by
    unfold singleShardTransactionIsDurable
    simp only [show machine.stateStore.replicaMetadata
      (singleShardTransactionMetadata transaction).name = none from hnew]
  simp only [validateTransactionAcceptance, acceptSingleShardTransaction, hdurable, bind,
    Except.bind, Bool.false_eq_true, if_false]
  rfl

/-- A commit that nothing stands against, delivered at the next index. -/
theorem applyCommitted_transaction (hm : machine.Aligned) {term : ℕ} (hterm : term ≠ 0)
    (hvalid : machine.Valid (.commitSingleShardTransaction transaction))
    (hnew : machine.record (.singleShardTransaction transaction.transactionId) = none)
    (hfree : machine.Unopposed transaction.transactionId transaction.startTime
      transaction.snapshotAppliedIndex transaction.mutations) :
    machine.applyCommitted term (machine.appliedIndex + 1)
        (.commitSingleShardTransaction transaction) =
      if historyRecordBudget < (changesAfter machine.stateStore
          ⟨transaction.snapshotAppliedIndex.toNat, u64Max⟩).length then
        (.error (corruptIntentHistory "durable change history exceeded the page budget"), machine)
      else
        (.ok (machine.freshOutcome (storedCommit (term, transaction)).mutations false none),
          machine.extend (storedCommit (term, transaction))) := by
  have hsnapshot := hvalid.snapshot transaction.snapshotAppliedIndex rfl
  have hold : ¬ (machine.appliedIndex + 1 < machine.appliedIndex ∧
      (ShardCommand.commitSingleShardTransaction transaction).isTwoPhase = true) := by
    rintro ⟨hlt, -⟩
    omega
  unfold applyCommitted
  simp only [validateCommand_eq_ok.mpr hvalid, applyValidated, if_neg hold,
    validateTransactionAcceptance_new hnew]
  split_ifs with hlong
  · simp only [validateWriteConflicts_exhausted hm hsnapshot hfree hlong, Except.map]
    rfl
  · simp only [(validateWriteConflicts_eq_ok hm hsnapshot).mpr ⟨hfree, not_lt.mp hlong⟩]
    have hwrite := @writeBatch_next _ machine.stateStore
      (storedCommit (term, transaction)).mutations term hterm
      (storedCommit_mutations_ne_nil (term, transaction)) transaction.header.commandId
    rw [← hm.bound, ← hm.applied] at hwrite
    have hmutations : (if machine.logicalReplay (machine.appliedIndex + 1) .none then []
        else (ShardCommand.commitSingleShardTransaction transaction).mutations) ++
        [.putReplicaMetadata (singleShardTransactionMetadata transaction)] =
        (storedCommit (term, transaction)).mutations := rfl
    simp only [Except.map, applyAccepted, recordsOf, hmutations]
    rw [show (ShardCommand.commitSingleShardTransaction transaction).header =
      transaction.header from rfl, hwrite]
    simp only [max_eq_right (Nat.le_succ machine.appliedIndex)]
    rfl

/-! ## The commits of an atomic batch delivered one by one -/

omit [Blake3] in
theorem Aligned.extend (hm : machine.Aligned) (batch : StoredBatch) :
    (machine.extend batch).Aligned where
  applied := by
    rw [show (machine.extend batch).stateStore = machine.stateStore.push batch from rfl,
      appliedIndex_push, ← hm.applied]
    rfl
  bound := hm.bound

/-- Single deliveries of independent commits all succeed, or one of them runs out
of pages. -/
theorem Independent.applyEach_eq (h : machine.Independent prior ids commits)
    (hm : machine.Aligned) (hfollows : machine.Follows later prior ids) (hlater : later.Aligned)
    (hgrows : machine.Grows later written) :
    (¬ machine.ScanOverflows written commits →
        later.applyEach (commitEntries (later.appliedIndex + 1) commits) =
          (.ok (later.commitOutcomes commits), later.commitAll commits)) ∧
      (machine.ScanOverflows written commits → ∃ error last,
        later.applyEach (commitEntries (later.appliedIndex + 1) commits) =
          (.error error, last)) := by
  induction h generalizing later written with
  | nil =>
    refine ⟨fun _ => ?_, fun h => h.elim⟩
    have hsame : later.commitAll [] = later := by
      simp [commitAll]
    rw [hsame]
    rfl
  | cons prior ids term transaction commits hterm hnew hfresh hapart hrest ih =>
    obtain ⟨hvalid, haccepts⟩ := hfollows.accepts hm hnew hfresh hapart
    obtain ⟨hbefore, -, -⟩ := accepts_of_isFreshTransaction hm hfresh
    have hlength := hgrows.length_changesAfter
      (hbefore.snapshot transaction.snapshotAppliedIndex rfl)
    obtain ⟨hunused, hfree⟩ :
        later.record (.singleShardTransaction transaction.transactionId) = none ∧
          later.Unopposed transaction.transactionId transaction.startTime
            transaction.snapshotAppliedIndex transaction.mutations := by
      cases haccepts with
      | transaction _ hunused hfree => exact ⟨hunused, hfree⟩
    have hfirst := applyCommitted_transaction hlater hterm hvalid hunused hfree
    rw [hlength] at hfirst
    obtain ⟨hok, hfail⟩ := ih (hfollows.extend (term, transaction))
      (hlater.extend (storedCommit (term, transaction)))
      (hgrows.extend hlater hfollows.applied (storedCommit (term, transaction)))
    rw [show (later.extend (storedCommit (term, transaction))).appliedIndex =
      later.appliedIndex + 1 from rfl] at hok hfail
    rw [commitEntries, applyEach, hfirst]
    constructor
    · intro hfits
      obtain ⟨hshort, hfits⟩ := not_or.mp hfits
      rw [if_neg hshort]
      simp only [hok hfits, commitAll_cons]
      rfl
    · intro hover
      split_ifs with hlong
      · exact ⟨_, _, rfl⟩
      · obtain ⟨error, last, hrest⟩ := hfail (hover.resolve_left hlong)
        simp only [hrest]
        exact ⟨_, _, rfl⟩

/-- Building the batches of an atomic batch never fails. -/
theorem collectTransactions_isOk (scan : BatchScan) (hindex : scan.expectedIndex ≠ 0)
    (entries : List Entry) : ∃ found, machine.collectTransactions scan entries = .ok found := by
  induction entries generalizing scan with
  | nil => exact ⟨_, rfl⟩
  | cons entry entries ih =>
    obtain ⟨term, index, command⟩ := entry
    cases command with
    | commitSingleShardTransaction =>
      unfold collectTransactions
      split_ifs with hplace
      · exact ⟨_, rfl⟩
      · exact ⟨_, rfl⟩
      · exact ⟨_, rfl⟩
      · exact ⟨_, rfl⟩
      · push Not at hplace
        rw [CommittedShardBatch.new_isOk hplace.2 (hplace.1 ▸ hindex) (by simp)]
        exact ih _ (Nat.succ_ne_zero _)
    | _ => exact ⟨_, rfl⟩

/-- Independent commits at the expected indexes are collected. -/
theorem Independent.collects (h : machine.Independent prior ids commits) {index : ℕ}
    (hindex : index ≠ 0) (batches : List CommittedShardBatch) :
    ∃ found, machine.collectTransactions ⟨index, prior, ids, batches⟩
      (commitEntries index commits) = .ok (some found) := by
  induction h generalizing index batches with
  | nil => exact ⟨_, rfl⟩
  | cons prior ids term transaction commits hterm hnew hfresh hapart hrest ih =>
    rw [commitEntries, collectTransactions, if_neg (by simp [hterm]), if_neg (by simp [hnew]),
      if_neg (by simp [hfresh]), if_neg (by simp [hapart]),
      CommittedShardBatch.new_isOk hterm hindex (by simp)]
    exact ih (Nat.succ_ne_zero index) _

/-! ## Batches and single deliveries -/

/-- The entries are at least two independent commits, taken as an atomic batch,
and single deliveries would have run out of pages within them. -/
def BatchOutrunsScan (machine : ShardStateMachine) (supportsAtomicBatchApply : Bool)
    (entries : List Entry) : Prop :=
  2 ≤ entries.length ∧ supportsAtomicBatchApply = true ∧
    ∃ commits, entries = commitEntries (machine.appliedIndex + 1) commits ∧
      machine.Independent [] ∅ commits ∧ machine.ScanOverflows 0 commits

theorem commitEntries_injective {index : ℕ} {commits' : List Commit}
    (h : commitEntries index commits = commitEntries index commits') : commits = commits' := by
  induction commits generalizing index commits' with
  | nil =>
    cases commits' with
    | nil => rfl
    | cons => cases h
  | cons commit commits ih =>
    cases commits' with
    | nil => cases h
    | cons commit' =>
      obtain ⟨term', transaction'⟩ := commit'
      simp only [commitEntries, List.cons.injEq, Prod.mk.injEq, true_and,
        ShardCommand.commitSingleShardTransaction.injEq] at h
      obtain ⟨⟨rfl, rfl⟩, hrest⟩ := h
      rw [ih hrest]

/-- An atomic batch writes independent commits. -/
theorem Independent.applyCommittedBatch_eq (h : machine.Independent [] ∅ commits)
    (hm : machine.Aligned) (hlength : 2 ≤ commits.length) :
    machine.applyCommittedBatch true (commitEntries (machine.appliedIndex + 1) commits) =
      (.ok (machine.commitOutcomes commits), machine.commitAll commits) := by
  obtain ⟨batches, hcollect⟩ := h.collects (Nat.succ_ne_zero machine.appliedIndex) []
  obtain ⟨commits', rest, hentries, -, hbatches, hcollects⟩ := collectTransactions_eq_some hcollect
  cases commitEntries_injective hentries
  have hne : commits ≠ [] := by
    rintro rfl
    simp at hlength
  have hatomic : ¬ ((commitEntries (machine.appliedIndex + 1) commits).length < 2 ∨ true = false) := by
    simp only [length_commitEntries, Bool.true_eq_false, or_false, not_lt, hlength]
  rw [applyCommittedBatch, if_neg hatomic, hcollect, hbatches]
  exact applyCollected_eq hm hcollects hne

/-- A batch has the outcomes and leaves the machine of single deliveries, unless
its own writes outrun a scan. -/
theorem applyCommittedBatch_eq_applyEach_iff (hm : machine.Aligned)
    (supportsAtomicBatchApply : Bool) (entries : List Entry) :
    machine.applyCommittedBatch supportsAtomicBatchApply entries = machine.applyEach entries ↔
      ¬ machine.BatchOutrunsScan supportsAtomicBatchApply entries := by
  constructor
  · rintro heq ⟨hlength, rfl, commits, rfl, hindependent, hover⟩
    rw [length_commitEntries] at hlength
    obtain ⟨error, last, hfail⟩ := (hindependent.applyEach_eq hm (Follows.refl machine) hm
      (Grows.refl machine)).2 hover
    rw [hindependent.applyCommittedBatch_eq hm hlength, hfail] at heq
    cases heq
  · intro hscan
    by_cases hplain : entries.length < 2 ∨ supportsAtomicBatchApply = false
    · rw [applyCommittedBatch, if_pos hplain]
    obtain ⟨found, hcollect⟩ := @collectTransactions_isOk _ machine
      ⟨machine.appliedIndex + 1, [], ∅, []⟩ (Nat.succ_ne_zero _) entries
    cases found with
    | none =>
      rw [applyCommittedBatch, if_neg hplain, hcollect]
    | some =>
      obtain ⟨commits, -, rfl, hindependent, -, -⟩ := collectTransactions_eq_some hcollect
      obtain ⟨hlength, hatomic⟩ := not_or.mp hplain
      cases Bool.eq_true_of_not_eq_false hatomic
      have hfits : ¬ machine.ScanOverflows 0 commits := fun hover =>
        hscan ⟨not_lt.mp hlength, rfl, commits, rfl, hindependent, hover⟩
      rw [length_commitEntries, not_lt] at hlength
      rw [hindependent.applyCommittedBatch_eq hm hlength]
      exact ((hindependent.applyEach_eq hm (Follows.refl machine) hm (Grows.refl machine)).1
        hfits).symm

/-! ## A batch that outruns the scan -/

/-- The converse of `accepts_of_isFreshTransaction`, with the history short enough. -/
theorem isFreshTransaction_of_unopposed (hm : machine.Aligned)
    (hvalid : machine.Valid (.commitSingleShardTransaction transaction))
    (hnew : machine.record (.singleShardTransaction transaction.transactionId) = none)
    (hfree : machine.Unopposed transaction.transactionId transaction.startTime
      transaction.snapshotAppliedIndex transaction.mutations)
    (hshort : (changesAfter machine.stateStore
      ⟨transaction.snapshotAppliedIndex.toNat, u64Max⟩).length ≤ historyRecordBudget) :
    machine.isFreshTransaction (.commitSingleShardTransaction transaction) = true := by
  have hsnapshot := hvalid.snapshot transaction.snapshotAppliedIndex rfl
  unfold isFreshTransaction
  rw [validateCommand_eq_ok.mpr hvalid, validateTransactionAcceptance_new hnew,
    (validateWriteConflicts_eq_ok hm hsnapshot).mpr ⟨hfree, hshort⟩]
  rfl

/-- A shard that has applied no-ops only. -/
structure Idle (machine : ShardStateMachine) (binding : ReplicaBinding) (count : ℕ) : Prop
    extends machine.Aligned where
  count : machine.appliedIndex = count
  placed : machine.binding = binding
  active : machine.activeIntents = ∅
  noops : ∀ batch ∈ machine.stateStore.log,
    ∃ index, batch.mutations = [.putReplicaMetadata (noopMetadata index)]

def idleEvents (count : ℕ) : List Event := (List.range count).map fun i => .noop 1 (i + 1)

theorem applyRaftNoop_next (hm : machine.Aligned) {term : ℕ} (hterm : term ≠ 0)
    {commandId : CommandId} (hid : noopCommandId term (machine.appliedIndex + 1) = some commandId) :
    (machine.applyRaftNoop term (machine.appliedIndex + 1)).2 = machine.extend
      ⟨term, commandId, [.putReplicaMetadata (noopMetadata (machine.appliedIndex + 1))]⟩ := by
  have hwrite := @writeBatch_next _ machine.stateStore
    [.putReplicaMetadata (noopMetadata (machine.appliedIndex + 1))] term hterm (by simp) commandId
  rw [← hm.bound, ← hm.applied] at hwrite
  unfold applyRaftNoop
  simp only [hid, applyRecord, hwrite, max_eq_right (Nat.le_succ machine.appliedIndex)]
  rfl

theorem Idle.noop (h : machine.Idle binding count) (hcount : count + 1 < 2 ^ 64) :
    (machine.applyRaftNoop 1 (count + 1)).2.Idle binding (count + 1) := by
  obtain ⟨hm, rfl, hplaced, hactive, hnoops⟩ := h
  obtain ⟨commandId, hid⟩ : ∃ commandId, noopCommandId 1 (machine.appliedIndex + 1) =
      some commandId := by
    refine ⟨_, dif_pos ⟨by omega, ?_⟩⟩
    change _ < 256 ^ 16
    omega
  rw [applyRaftNoop_next hm one_ne_zero hid]
  refine ⟨hm.extend _, rfl, hplaced, hactive, ?_⟩
  exact List.forall_mem_append.mpr ⟨hnoops, List.forall_mem_singleton.mpr ⟨_, rfl⟩⟩

theorem idle_run (binding : ReplicaBinding) (h : count < 2 ^ 64) :
    ((empty binding).run (idleEvents count)).2.Idle binding count := by
  induction count with
  | zero => exact ⟨(empty_sound binding).toAligned, rfl, rfl, rfl, fun _ h => nomatch h⟩
  | succ count ih =>
    rw [idleEvents, List.range_succ, List.map_append, List.map_singleton, run_append]
    exact (ih (by omega)).noop h

omit [Blake3] in
/-- Before any graph write, all `count` no-ops follow the snapshot at index zero. -/
theorem Idle.length_changesAfter (h : machine.Idle binding count) :
    (changesAfter machine.stateStore ⟨0, u64Max⟩).length = count := by
  have hall : changesAfter machine.stateStore ⟨0, u64Max⟩ = machine.stateStore.changes := by
    refine List.filter_eq_self.mpr fun change hchange => decide_eq_true ?_
    intro cursor hcursor
    cases hcursor
    rw [ChangeCursor.lt_iff]
    exact .inl (index_pos_of_mem_changes hchange)
  have hmutations : machine.stateStore.mutations.length = machine.stateStore.log.length := by
    rw [mutations, List.length_flatMap]
    have hones : machine.stateStore.log.map (fun batch => batch.mutations.length) =
        machine.stateStore.log.map (fun _ => 1) := by
      refine List.map_congr_left fun batch hbatch => ?_
      obtain ⟨index, hnoop⟩ := h.noops batch hbatch
      rw [hnoop, List.length_singleton]
    rw [hones]
    simp
  rw [hall, ← List.length_map (·.mutation), map_mutation_changes, hmutations, ← h.count,
    h.applied]
  rfl

omit [Blake3] in
theorem Idle.mutation_eq (h : machine.Idle binding count) {mutation : LogicalMutation}
    (hmem : mutation ∈ machine.stateStore.mutations) :
    ∃ index, mutation = .putReplicaMetadata (noopMetadata index) := by
  obtain ⟨batch, hbatch, hmem⟩ := List.mem_flatMap.mp hmem
  obtain ⟨index, hnoop⟩ := h.noops batch hbatch
  rw [hnoop] at hmem
  exact ⟨index, List.mem_singleton.mp hmem⟩

omit [Blake3] in
theorem Idle.graphMutationTime_eq_none (h : machine.Idle binding count) {change : ChangeRecord}
    (hmem : change ∈ machine.stateStore.changes) : graphMutationTime change.mutation = none := by
  have hmutation : change.mutation ∈ machine.stateStore.mutations := by
    rw [← map_mutation_changes]
    exact List.mem_map_of_mem hmem
  obtain ⟨index, hnoop⟩ := h.mutation_eq hmutation
  rw [hnoop]
  rfl

/-- An idle shard would apply any first transaction of its placement. -/
theorem Idle.isFreshTransaction (h : machine.Idle binding count)
    (hcount : count ≤ historyRecordBudget)
    (hepoch : transaction.header.placementEpoch = binding.placementEpoch)
    (hgeneration : transaction.header.backendGeneration = binding.backendGeneration)
    (hsnapshot : transaction.snapshotAppliedIndex = 0) :
    machine.isFreshTransaction (.commitSingleShardTransaction transaction) = true := by
  refine isFreshTransaction_of_unopposed h.toAligned ⟨?_, ?_, ?_, fun _ hclosing => nomatch hclosing⟩
    ?_ ⟨?_, ?_⟩ ?_
  · intro _
    rw [h.placed]
    exact ⟨hepoch, hgeneration⟩
  · intro intent hintent
    cases hintent
  · intro snapshot hmem
    cases hmem
    rw [hsnapshot]
    exact Nat.zero_le _
  · apply lastMetadata_eq_none
    intro metadata hmem
    obtain ⟨index, hnoop⟩ := h.mutation_eq hmem
    cases hnoop
    intro hname
    have hkey : ReservedKey.raftNoop = .singleShardTransaction transaction.transactionId :=
      ReservedKey.name_injective hname
    cases hkey
  · simp [h.active]
  · intro change hchange time htime
    rw [h.graphMutationTime_eq_none (mem_changesAfter.mp hchange).1] at htime
    cases htime
  · rw [hsnapshot]
    exact h.length_changesAfter.trans_le hcount

end ShardStateMachine

end Machine

/-- A commit of one vertex, on the snapshot before every change. -/
def sampleCommit (vertex : VertexId) (transactionId : TransactionId) (commandId : CommandId) :
    ShardStateMachine.Commit :=
  (1, {
    header := sampleHeader commandId
    transactionId := transactionId
    startTime := 1
    snapshotAppliedIndex := 0
    requestDigest := Digest32.zero
    mutations := [.putVertex (.plain vertex .decade 2)]
    valid := by
      refine Result.bind_eq_ok.mpr ⟨(), validateIntentMutations_eq_ok.mpr ?_, ?_⟩
      · exact ⟨(by decide : 1 ≤ maxTransactionIntentItems), by simp, 2,
          by simp [VertexVersion.plain, graphMutationTime]⟩
      · rw [validateCommitFollowsStart, if_neg]
        simp [VertexVersion.plain, graphMutationTime, show (1 : TransactionTime) < 2 by decide] })

def sampleCommits : List ShardStateMachine.Commit :=
  [sampleCommit 1 1 1, sampleCommit 2 2 2]

namespace ShardStateMachine

/-- On an idle shard the two commits form an atomic batch. -/
theorem Idle.independent_sampleCommits [Blake3] {machine : ShardStateMachine} {count : ℕ}
    (h : machine.Idle sampleBinding count) (hcount : count ≤ historyRecordBudget) :
    machine.Independent [] ∅ sampleCommits := by
  refine .cons _ _ _ _ _ one_ne_zero (by simp) (h.isFreshTransaction hcount rfl rfl rfl)
    (by simp [mutationsConflict]) (.cons _ _ _ _ _ one_ne_zero ?_
      (h.isFreshTransaction hcount rfl rfl rfl) ?_ (.nil _ _))
  · decide +kernel
  · decide +kernel

/-- Two commits on an empty shard are the same as a batch and one by one. -/
theorem sampleCommits_batch_eq_each :
    letI := foldHash
    (empty sampleBinding).Aligned ∧
      (empty sampleBinding).applyCommittedBatch true (commitEntries 1 sampleCommits) =
        (empty sampleBinding).applyEach (commitEntries 1 sampleCommits) := by
  let _ := foldHash
  have hm : (empty sampleBinding).Aligned := (empty_sound sampleBinding).toAligned
  refine ⟨hm, (applyCommittedBatch_eq_applyEach_iff hm true (commitEntries 1 sampleCommits)).mpr ?_⟩
  rintro ⟨-, -, commits, hcommits, -, hover⟩
  cases commitEntries_injective hcommits
  revert hover
  decide +kernel

/-- After a full scan's worth of no-ops, the second of two commits succeeds in a
batch and fails on its own. -/
theorem Idle.batch_succeeds_each_fails [Blake3] {machine : ShardStateMachine}
    (h : machine.Idle sampleBinding historyRecordBudget) :
    machine.applyCommittedBatch true (commitEntries (historyRecordBudget + 1) sampleCommits) =
        (.ok (machine.commitOutcomes sampleCommits), machine.commitAll sampleCommits) ∧
      ∃ error last, machine.applyEach (commitEntries (historyRecordBudget + 1) sampleCommits) =
        (.error error, last) := by
  have hindependent := h.independent_sampleCommits le_rfl
  have hover : machine.ScanOverflows 0 sampleCommits := by
    refine .inr (.inl ?_)
    change _ < (changesAfter machine.stateStore ⟨0, u64Max⟩).length + _
    rw [h.length_changesAfter]
    exact Nat.lt_add_of_pos_right (by decide)
  have heach := (hindependent.applyEach_eq h.toAligned (Follows.refl machine) h.toAligned
    (Grows.refl machine)).2 hover
  have hbatch := hindependent.applyCommittedBatch_eq h.toAligned (by decide)
  rw [h.count] at heach hbatch
  exact ⟨hbatch, heach⟩

theorem idleShard_batch_ne_each :
    letI := foldHash
    ((empty sampleBinding).run (idleEvents historyRecordBudget)).2.applyCommittedBatch true
        (commitEntries (historyRecordBudget + 1) sampleCommits) ≠
      ((empty sampleBinding).run (idleEvents historyRecordBudget)).2.applyEach
        (commitEntries (historyRecordBudget + 1) sampleCommits) := by
  have hidle := @idle_run foldHash historyRecordBudget sampleBinding (by decide)
  obtain ⟨hbatch, error, last, heach⟩ := @Idle.batch_succeeds_each_fails foldHash _ hidle
  intro heq
  have hresult := (hbatch.symm.trans heq).trans heach
  cases congrArg Prod.fst hresult

end ShardStateMachine

end DtgProxy.Shard

import DtgProxy.Shard.Preservation

/-! # Atomic batches of one-phase commits

The entries an atomic batch accepts are commits that do not touch each other,
each accepted by the machine before the batch.  The batch leaves the machine that
accepting them one after the other leaves.
-/
namespace DtgProxy.Shard

open Kernel Lib Storage ReplicaStore

section Machine

variable [Blake3] {transaction : CommitSingleShardTransaction}
  {batches : List CommittedShardBatch}

namespace ShardStateMachine

variable {ids : OrderedMap TransactionId Unit}
variable {later : ShardStateMachine} {prior : List LogicalMutation}

/-- A one-phase commit and the term it was proposed in. -/
abbrev Commit := ℕ × CommitSingleShardTransaction

def commitEntries (index : ℕ) : List Commit → List Entry
  | [] => []
  | (term, transaction) :: commits =>
    (term, index, .commitSingleShardTransaction transaction) :: commitEntries (index + 1) commits

/-- What the store keeps of a commit. -/
def storedCommit (commit : Commit) : StoredBatch :=
  ⟨commit.1, commit.2.header.commandId,
    commit.2.mutations ++ [.putReplicaMetadata (singleShardTransactionMetadata commit.2)]⟩

def commitAll (machine : ShardStateMachine) (commits : List Commit) : ShardStateMachine :=
  { machine with
    stateStore := { machine.stateStore with
      log := machine.stateStore.log ++ commits.map storedCommit }
    appliedIndex := machine.appliedIndex + commits.length }

def commitOutcomes (machine : ShardStateMachine) : List Commit → List ApplyOutcome
  | [] => []
  | commit :: commits =>
    machine.freshOutcome (storedCommit commit).mutations false none ::
      (machine.extend (storedCommit commit)).commitOutcomes commits

/-- The checks of an atomic batch, commit after commit. -/
inductive Independent (machine : ShardStateMachine) :
    List LogicalMutation → OrderedMap TransactionId Unit → List Commit → Prop where
  | nil (prior : List LogicalMutation) (ids : OrderedMap TransactionId Unit) :
      Independent machine prior ids []
  | cons (prior : List LogicalMutation) (ids : OrderedMap TransactionId Unit) (term : ℕ)
      (transaction : CommitSingleShardTransaction) (commits : List Commit) (hterm : term ≠ 0)
      (hnew : ids.contains transaction.transactionId = false)
      (hfresh : machine.isFreshTransaction (.commitSingleShardTransaction transaction) = true)
      (hapart : mutationsConflict prior transaction.mutations = false)
      (hrest : Independent machine (prior ++ transaction.mutations)
        (ids.insert transaction.transactionId ()) commits) :
      Independent machine prior ids ((term, transaction) :: commits)

variable {machine : ShardStateMachine}

omit [Blake3] in
theorem commitAll_cons (commit : Commit) (commits : List Commit) :
    machine.commitAll (commit :: commits) =
      (machine.extend (storedCommit commit)).commitAll commits := by
  simp only [commitAll, extend, push, List.map_cons, List.length_cons,
    List.append_assoc, List.singleton_append]
  congr 1
  omega

omit [Blake3] in
theorem storedCommit_mutations_ne_nil (commit : Commit) : (storedCommit commit).mutations ≠ [] := by
  simp [storedCommit]

/-- The batches an accepted atomic batch is made of. -/
def CollectsAs (machine : ShardStateMachine) (index : ℕ) (commits : List Commit)
    (batches : List CommittedShardBatch) : Prop :=
  batches.map (fun batch => (batch.binding, batch.raftIndex)) =
      (commits.zipIdx index).map (fun commit => (machine.binding, commit.2)) ∧
    batches.map (fun batch => (⟨batch.raftTerm, batch.commandId, batch.mutations⟩ : StoredBatch)) =
      commits.map storedCommit

/-- A collected list of batches comes from independent commits. -/
theorem collectTransactions_eq_some {entries : List Entry} {scan : BatchScan}
    (h : machine.collectTransactions scan entries = .ok (some batches)) :
    ∃ commits rest, entries = commitEntries scan.expectedIndex commits ∧
      Independent machine scan.priorMutations scan.transactionIds commits ∧
      batches = scan.batches ++ rest ∧ machine.CollectsAs scan.expectedIndex commits rest := by
  induction entries generalizing scan with
  | nil =>
    cases h
    exact ⟨[], [], rfl, .nil _ _, (List.append_nil _).symm, rfl, rfl⟩
  | cons entry entries ih =>
    obtain ⟨term, index, command⟩ := entry
    cases command with
    | commitSingleShardTransaction transaction =>
      unfold collectTransactions at h
      split_ifs at h with hplace hold hstale hconflict
      · cases h
      · cases h
      · cases h
      · cases h
      · push Not at hplace
        obtain ⟨batch, hbatch, h⟩ := Result.bind_eq_ok.mp h
        have hcreated : CommittedShardBatch.new machine.binding term index
            transaction.header.commandId (storedCommit (term, transaction)).mutations = .ok batch := by
          unfold ofStorage at hbatch
          split at hbatch
          · cases hbatch
            assumption
          · cases hbatch
        obtain ⟨hbinding, hraftTerm, hraftIndex, hid, hmutations⟩ := CommittedShardBatch.new_ok hcreated
        obtain ⟨commits, rest, hentries, hrest, hbatches, hbound, hstored⟩ := ih h
        refine ⟨(term, transaction) :: commits, batch :: rest, ?_, ?_, ?_, ?_, ?_⟩
        · rw [commitEntries, ← hplace.1, hentries, hplace.1]
        · exact .cons _ _ term transaction commits hplace.2 (Bool.eq_false_iff.mpr hold)
            (by simpa using hstale) (by simpa using hconflict) hrest
        · rw [hbatches, List.append_assoc, List.singleton_append]
        · rw [List.zipIdx_cons, List.map_cons, List.map_cons, hbinding, hraftIndex, hplace.1, hbound]
        · rw [List.map_cons, List.map_cons, hstored, hraftTerm, hid, hmutations]
          rfl
    | _ => cases h

theorem length_commitEntries (index : ℕ) (commits : List Commit) :
    (commitEntries index commits).length = commits.length := by
  induction commits generalizing index with
  | nil => rfl
  | cons commit commits ih => rw [commitEntries, List.length_cons, ih, List.length_cons]

variable {commits : List Commit}

theorem commitOutcomes_eq {index : ℕ} (happlied : machine.appliedIndex + 1 = index)
    {rest : List CommittedShardBatch} (hcollects : machine.CollectsAs index commits rest) :
    rest.map (fun batch => (⟨batch.mutationDigest, batch.raftIndex, false, none, machine.binding⟩ :
      ApplyOutcome)) = machine.commitOutcomes commits := by
  induction commits generalizing machine rest index with
  | nil =>
    obtain ⟨-, hstored⟩ := hcollects
    rw [List.map_nil, List.map_eq_nil_iff] at hstored
    subst hstored
    rfl
  | cons commit commits ih =>
    obtain ⟨hbound, hstored⟩ := hcollects
    cases rest with
    | nil => cases hstored
    | cons batch =>
      rw [List.zipIdx_cons, List.map_cons, List.map_cons, List.cons.injEq, Prod.mk.injEq] at hbound
      rw [List.map_cons, List.map_cons, List.cons.injEq] at hstored
      have hnext : (machine.extend (storedCommit commit)).appliedIndex + 1 = index + 1 := by
        rw [← happlied]
        rfl
      have htail := ih hnext ⟨hbound.2, hstored.2⟩
      have hmutations : batch.mutations = (storedCommit commit).mutations :=
        congrArg StoredBatch.mutations hstored.1
      rw [List.map_cons, commitOutcomes, ← htail, hbound.1.2, ← happlied]
      simp only [freshOutcome, CommittedShardBatch.mutationDigest, hmutations]
      rfl

/-- Writing the collected batches leaves the machine after the commits. -/
theorem applyCollected_eq (hm : machine.Aligned)
    (hcollects : machine.CollectsAs (machine.appliedIndex + 1) commits batches)
    (hne : commits ≠ []) :
    machine.applyCollected (commitEntries (machine.appliedIndex + 1) commits) batches =
      (.ok (machine.commitOutcomes commits), machine.commitAll commits) := by
  obtain ⟨hbound, hstored⟩ := hcollects
  have hlength : batches.length = commits.length := by
    have h := congrArg List.length hstored
    rwa [List.length_map, List.length_map] at h
  have hat : ∀ i batch, batches[i]? = some batch →
      batch.binding = machine.binding ∧ batch.raftIndex = machine.appliedIndex + 1 + i := by
    intro i batch hbatch
    have h := congrArg (fun found => found[i]?) hbound
    simp only [List.getElem?_map, hbatch, Option.map_some, List.getElem?_zipIdx] at h
    obtain ⟨hlt, -⟩ := List.getElem?_eq_some_iff.mp hbatch
    rw [List.getElem?_eq_getElem (by omega)] at h
    simp only [Option.map_some, Option.some.injEq, Prod.mk.injEq] at h
    exact h
  have hbinding : ∀ batch ∈ batches, batch.binding = machine.stateStore.binding := by
    intro batch hmem
    obtain ⟨i, hi⟩ := List.mem_iff_getElem?.mp hmem
    rw [← hm.bound]
    exact (hat i batch hi).1
  have happly := applyBatches_next machine.stateStore batches hbinding
    (fun i batch hbatch => by rw [← hm.applied]; exact (hat i batch hbatch).2)
  unfold applyCollected
  rw [happly]
  have hlast : ((batches.map (fun batch => (⟨batch.raftIndex, batch.mutationDigest, false⟩ :
      ApplyReceipt))).getLast?.map (·.raftIndex)).getD machine.appliedIndex =
      machine.appliedIndex + commits.length := by
    have hpos : 0 < batches.length := by
      rw [hlength]
      exact List.length_pos_of_ne_nil hne
    rw [List.getLast?_map, List.getLast?_eq_getElem?, List.getElem?_eq_getElem (by omega)]
    have h := (hat (batches.length - 1) _ (List.getElem?_eq_getElem (by omega))).2
    simp only [Option.map_some, Option.getD_some]
    omega
  have hfresh : ¬ ((batches.map (fun batch => (⟨batch.raftIndex, batch.mutationDigest, false⟩ :
      ApplyReceipt))).length ≠ (commitEntries (machine.appliedIndex + 1) commits).length ∨
      (batches.map (fun batch => (⟨batch.raftIndex, batch.mutationDigest, false⟩ :
        ApplyReceipt))).any (·.replayed) = true) := by
    rw [List.length_map, length_commitEntries, hlength]
    simp
  simp only [if_neg hfresh, hlast, hstored, List.map_map]
  rw [← commitOutcomes_eq rfl ⟨hbound, hstored⟩]
  rfl

/-! ## Independent commits are accepted one after the other -/

/-- A later machine that differs by commits which wrote `prior` under `ids`. -/
structure Follows (machine later : ShardStateMachine) (prior : List LogicalMutation)
    (ids : OrderedMap TransactionId Unit) : Prop where
  binding : later.binding = machine.binding
  active : later.activeIntents = machine.activeIntents
  applied : machine.appliedIndex ≤ later.appliedIndex
  changes : ∀ change ∈ later.stateStore.changes, change ∈ machine.stateStore.changes ∨
    change.mutation ∈ prior ∨ graphMutationTime change.mutation = none
  receipts : ∀ id, ids.contains id = false →
    later.record (.singleShardTransaction id) = machine.record (.singleShardTransaction id)

omit [Blake3] in
theorem Follows.refl (machine : ShardStateMachine) : machine.Follows machine [] ∅ :=
  ⟨rfl, rfl, le_refl _, fun _ h => .inl h, fun _ _ => rfl⟩

omit [Blake3] in
theorem mem_changes_extend {batch : StoredBatch} {change : ChangeRecord}
    (h : change ∈ (machine.extend batch).stateStore.changes) :
    change ∈ machine.stateStore.changes ∨ change.mutation ∈ batch.mutations := by
  have hpush : (machine.extend batch).stateStore.changes = machine.stateStore.changes ++
      batchChanges (machine.stateStore.appliedIndex + 1) batch :=
    changes_push _ _
  rw [hpush, List.mem_append] at h
  rcases h with h | h
  · exact .inl h
  · exact .inr (List.mem_of_getElem? (mem_batchChanges.mp h).2)

omit [Blake3] in
theorem extend_storedCommit_record (commit : Commit) {id : TransactionId}
    (h : id ≠ commit.2.transactionId) :
    (machine.extend (storedCommit commit)).record (.singleShardTransaction id) =
      machine.record (.singleShardTransaction id) := by
  have hreceipt : lastMetadata (ReservedKey.singleShardTransaction id).name
      [.putReplicaMetadata (singleShardTransactionMetadata commit.2)] = none :=
    lastMetadata_record (.singleShardTransaction commit.2.transactionId) rfl (by simpa using h.symm)
  rw [extend_record, storedCommit, lastMetadata_append, hreceipt, Option.none_or,
    lastMetadata_graph commit.2.graph, Option.none_or]

omit [Blake3] in
theorem Follows.extend (h : machine.Follows later prior ids) (commit : Commit) :
    machine.Follows (later.extend (storedCommit commit)) (prior ++ commit.2.mutations)
      (ids.insert commit.2.transactionId ()) := by
  refine ⟨h.binding, h.active, Nat.le_succ_of_le h.applied, ?_, ?_⟩
  · intro change hchange
    rcases mem_changes_extend hchange with hold | hnew
    · rcases h.changes change hold with hmem | hprior | hnone
      · exact .inl hmem
      · exact .inr (.inl (List.mem_append_left _ hprior))
      · exact .inr (.inr hnone)
    · rcases List.mem_append.mp hnew with hmutation | hreceipt
      · exact .inr (.inl (List.mem_append_right _ hmutation))
      · rw [List.mem_singleton.mp hreceipt]
        exact .inr (.inr rfl)
  · intro id hid
    rw [Std.ExtTreeMap.contains_insert, Bool.or_eq_false_iff] at hid
    have hne : id ≠ commit.2.transactionId := by
      rintro rfl
      simp at hid
    rw [extend_storedCommit_record commit hne]
    exact h.receipts id hid.2

/-- What a transaction that is not a replay was checked for. -/
theorem accepts_of_isFreshTransaction (hm : machine.Aligned)
    (h : machine.isFreshTransaction (.commitSingleShardTransaction transaction) = true) :
    machine.Valid (.commitSingleShardTransaction transaction) ∧
      machine.record (.singleShardTransaction transaction.transactionId) = none ∧
      machine.Unopposed transaction.transactionId transaction.startTime
        transaction.snapshotAppliedIndex transaction.mutations := by
  unfold isFreshTransaction at h
  split at h
  · cases h
  · next hcheck =>
    have hvalid := validateCommand_eq_ok.mp hcheck
    split at h
    · next haccept =>
      cases accepts_of_eq_ok hm hvalid haccept with
      | transaction _ hnew hfree => exact ⟨hvalid, hnew, hfree⟩
    · cases h

theorem Follows.accepts (h : machine.Follows later prior ids) (hm : machine.Aligned)
    (hnew : ids.contains transaction.transactionId = false)
    (hfresh : machine.isFreshTransaction (.commitSingleShardTransaction transaction) = true)
    (hapart : mutationsConflict prior transaction.mutations = false) :
    later.Valid (.commitSingleShardTransaction transaction) ∧
      later.Accepts (.commitSingleShardTransaction transaction) .none := by
  obtain ⟨hvalid, hreceipt, hfree⟩ := accepts_of_isFreshTransaction hm hfresh
  constructor
  · refine ⟨?_, ?_, ?_, fun _ hclosing => nomatch hclosing⟩
    · intro _
      rw [h.binding]
      exact hvalid.placed rfl
    · intro intent hintent
      cases hintent
    · intro snapshot hsnapshot
      exact le_trans (hvalid.snapshot snapshot hsnapshot) h.applied
  · refine .transaction transaction ((h.receipts _ hnew).trans hreceipt) ⟨?_, ?_⟩
    · rw [h.active]
      exact hfree.prepared
    · intro change hchange time htime hlater
      obtain ⟨hmem, hcursor⟩ := mem_changesAfter.mp hchange
      rcases h.changes change hmem with hold | hprior | hnone
      · exact hfree.committed change (mem_changesAfter.mpr ⟨hold, hcursor⟩) time htime hlater
      · rw [← Bool.not_eq_true]
        intro hconflict
        rw [mutationsConflict_comm] at hconflict
        obtain ⟨left, hleft, right, hright, i, e, f, hwrite⟩ := mutationsConflict_iff.mp hconflict
        cases List.mem_singleton.mp hleft
        have hmeets := mutationsConflict_iff.mpr ⟨_, hprior, right, hright, i, e, f, hwrite⟩
        rw [hapart] at hmeets
        cases hmeets
      · rw [hnone] at htime
        cases htime

/-- The commits of an atomic batch are steps of the machine. -/
theorem Independent.steps (h : machine.Independent prior ids commits) (hm : machine.Aligned)
    (hlater : machine.Follows later prior ids) :
    later.Steps ((commitEntries (later.appliedIndex + 1) commits).zip
      (later.commitOutcomes commits)) (later.commitAll commits) := by
  induction h generalizing later with
  | nil =>
    have heq : later.commitAll [] = later := by
      simp [commitAll]
    rw [heq]
    exact .refl
  | cons prior ids term transaction commits hterm hnew hfresh hapart hrest ih =>
    obtain ⟨hvalid, haccepts⟩ := hlater.accepts hm hnew hfresh hapart
    have hstep : later.Step [((term, later.appliedIndex + 1,
        .commitSingleShardTransaction transaction),
          later.freshOutcome (storedCommit (term, transaction)).mutations false none)]
        (later.extend (storedCommit (term, transaction))) :=
      .accepted term (.commitSingleShardTransaction transaction) .none
        [.putReplicaMetadata (singleShardTransactionMetadata transaction)] hterm hvalid rfl haccepts
        rfl (storedCommit_mutations_ne_nil (term, transaction))
    rw [commitAll_cons]
    exact .head hstep (ih (hlater.extend (term, transaction)))

end ShardStateMachine

end Machine

end DtgProxy.Shard

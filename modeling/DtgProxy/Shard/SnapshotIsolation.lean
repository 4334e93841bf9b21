import DtgProxy.Shard.Runs

/-! # Snapshot isolation on one shard

First committer wins: of two transactions that write a common part of the graph,
one started at or after the other's commit time or read a snapshot that holds it.
-/
namespace DtgProxy.Shard

open Kernel Lib Storage

/-- A write of one list and a write of the other cover a common part of the time
line of one vertex or edge. -/
def WritesMeet (left right : List LogicalMutation) : Prop :=
  ∃ l ∈ left, ∃ r ∈ right, ∃ i e f,
    graphWrite l = some (i, e) ∧ graphWrite r = some (i, f) ∧ e.meets f = true

theorem writesMeet_iff {left right : List LogicalMutation} :
    WritesMeet left right ↔ mutationsConflict left right = true :=
  mutationsConflict_iff.symm

theorem WritesMeet.symm {left right : List LogicalMutation} (h : WritesMeet left right) :
    WritesMeet right left := by
  rw [writesMeet_iff] at h ⊢
  rwa [mutationsConflict_comm]

/-- A transaction whose writes became visible on the shard. -/
structure VisibleCommit where
  transactionId : TransactionId
  startTime : TransactionTime
  snapshotAppliedIndex : ℕ
  commitTime : TransactionTime
  raftIndex : ℕ
  mutations : List LogicalMutation

section Machine

variable [Blake3]

/-- The writes a command makes visible when it is accepted at an index. -/
def ShardCommand.visibleCommit (index : ℕ) : ShardCommand → Option VisibleCommit
  | .commitSingleShardTransaction command =>
    some ⟨command.transactionId, command.startTime, command.snapshotAppliedIndex.toNat,
      command.commitTime, index, command.mutations⟩
  | .finalizeParticipant command =>
    command.intent.map fun intent =>
      ⟨intent.transactionId, intent.startTime, intent.snapshotAppliedIndex.toNat,
        command.terminal.transactionTime, index, intent.mutations⟩
  | _ => none

def Delivery.visibleCommit (delivery : Delivery) : Option VisibleCommit :=
  if delivery.2.rejection = none ∧ delivery.2.replayed = false then
    delivery.1.2.2.visibleCommit delivery.1.2.1
  else none

def visibleCommits (deliveries : List Delivery) : List VisibleCommit :=
  deliveries.filterMap Delivery.visibleCommit

theorem visibleCommits_append (first rest : List Delivery) :
    visibleCommits (first ++ rest) = visibleCommits first ++ visibleCommits rest :=
  List.filterMap_append

/-- The later commit `b` does not overwrite blindly what `a` wrote. -/
def VisibleCommit.Respects (b a : VisibleCommit) : Prop :=
  a.commitTime ≤ b.startTime ∨ a.raftIndex ≤ b.snapshotAppliedIndex

variable {deliveries : List Delivery} {delivery : Delivery}

namespace ShardStateMachine

variable {machine' : ShardStateMachine} {past : List Delivery}
variable {commit : VisibleCommit}

/-- The writes of a commit stand in the change history. -/
def Wrote (machine : ShardStateMachine) (commit : VisibleCommit) : Prop :=
  ∀ mutation ∈ commit.mutations, graphMutationTime mutation = some commit.commitTime ∧
    ∃ change ∈ machine.stateStore.changes,
      change.mutation = mutation ∧ change.cursor.raftIndex = commit.raftIndex

/-- The visible commits of a run and the prepared transactions of its machine. -/
structure Isolated (past : List Delivery) (machine : ShardStateMachine) : Prop where
  wrote : ∀ commit ∈ visibleCommits past, machine.Wrote commit
  prepared : ∀ (id : TransactionId) (intent : ParticipantIntent),
    machine.activeIntents[id]? = some intent → ∀ commit ∈ visibleCommits past,
      commit.transactionId ≠ id → WritesMeet intent.mutations commit.mutations →
        commit.commitTime ≤ intent.startTime ∨
          commit.raftIndex ≤ intent.snapshotAppliedIndex.toNat
  apart : ∀ (id id' : TransactionId) (intent intent' : ParticipantIntent),
    machine.activeIntents[id]? = some intent → machine.activeIntents[id']? = some intent' →
      id ≠ id' → ¬ WritesMeet intent.mutations intent'.mutations
  commits : ∀ a ∈ visibleCommits past, ∀ b ∈ visibleCommits past,
    a.transactionId ≠ b.transactionId → WritesMeet a.mutations b.mutations →
      a.Respects b ∨ b.Respects a

variable {machine : ShardStateMachine}

omit [Blake3] in
theorem Wrote.of_extends (h : machine.Wrote commit)
    (hlog : machine.stateStore.log <+: machine'.stateStore.log) :
    machine'.Wrote commit := by
  intro mutation hmem
  obtain ⟨htime, change, hchange, hrest⟩ := h mutation hmem
  exact ⟨htime, change, ReplicaStore.mem_changes_of_extends hlog hchange, hrest⟩

omit [Blake3] in
/-- Writes that nothing stands against respect every commit they meet. -/
theorem Unopposed.respects {transactionId : TransactionId} {startTime : TransactionTime}
    {snapshot : UInt64} {candidate : List LogicalMutation}
    (h : machine.Unopposed transactionId startTime snapshot candidate)
    (hwrote : machine.Wrote commit) (hmeet : WritesMeet candidate commit.mutations) :
    commit.commitTime ≤ startTime ∨ commit.raftIndex ≤ snapshot.toNat := by
  obtain ⟨l, hl, r, hr, i, e, f, hwrite⟩ := hmeet
  obtain ⟨htime, change, hchange, hmutation, hindex⟩ := hwrote r hr
  by_contra hnot
  rw [not_or, not_le, not_le] at hnot
  have hafter : change ∈ changesAfter machine.stateStore ⟨snapshot.toNat, u64Max⟩ := by
    rw [mem_changesAfter, ChangeCursor.lt_iff]
    exact ⟨hchange, .inl (by rw [hindex]; exact hnot.2)⟩
  have hfalse := h.committed change hafter commit.commitTime (by rw [hmutation]; exact htime) hnot.1
  have htrue : mutationsConflict candidate [change.mutation] = true := by
    rw [hmutation]
    exact mutationsConflict_iff.mpr ⟨l, hl, r, List.mem_singleton_self r, i, e, f, hwrite⟩
  rw [hfalse] at htrue
  cases htrue

section NotPrepared

variable (h : Isolated past machine) (hlog : machine.stateStore.log <+: machine'.stateStore.log)
  (hactive : ∀ (id : TransactionId) (intent : ParticipantIntent),
    machine'.activeIntents[id]? = some intent → machine.activeIntents[id]? = some intent)

include h hlog hactive

/-- A step that makes nothing visible and prepares nothing. -/
theorem Isolated.unchanged (hnone : visibleCommits deliveries = []) :
    Isolated (past ++ deliveries) machine' := by
  have heq : visibleCommits (past ++ deliveries) = visibleCommits past := by
    rw [visibleCommits_append, hnone, List.append_nil]
  constructor
  · rw [heq]
    intro commit hcommit
    exact (h.wrote commit hcommit).of_extends hlog
  · rw [heq]
    intro id intent hget
    exact h.prepared id intent (hactive id intent hget)
  · intro id id' intent intent' hget hget'
    exact h.apart id id' intent intent' (hactive id intent hget) (hactive id' intent' hget')
  · rw [heq]
    exact h.commits

theorem Isolated.committed (hcommit : Delivery.visibleCommit delivery = some commit)
    (hwrote : machine'.Wrote commit)
    (hrespects : ∀ other ∈ visibleCommits past, other.transactionId ≠ commit.transactionId →
      WritesMeet commit.mutations other.mutations → commit.Respects other)
    (hclear : ∀ (id : TransactionId) (intent : ParticipantIntent),
      machine'.activeIntents[id]? = some intent → commit.transactionId ≠ id →
        ¬ WritesMeet intent.mutations commit.mutations) :
    Isolated (past ++ [delivery]) machine' := by
  have heq : visibleCommits (past ++ [delivery]) = visibleCommits past ++ [commit] := by
    simp [visibleCommits, hcommit]
  constructor
  all_goals try simp only [heq, List.forall_mem_append, List.forall_mem_singleton]
  · exact ⟨fun other hother => (h.wrote other hother).of_extends hlog, hwrote⟩
  · intro id intent hget
    exact ⟨h.prepared id intent (hactive id intent hget),
      fun hne hmeet => absurd hmeet (hclear id intent hget hne)⟩
  · intro id id' intent intent' hget hget'
    exact h.apart id id' intent intent' (hactive id intent hget) (hactive id' intent' hget')
  · refine ⟨fun a ha => ⟨h.commits a ha, fun hne hmeet => ?_⟩, fun b hb hne hmeet => ?_,
      fun hne => absurd rfl hne⟩
    · exact .inr (hrespects a ha hne hmeet.symm)
    · exact .inl (hrespects b hb hne.symm hmeet)

end NotPrepared

theorem visibleCommits_replayed (h : delivery.2.replayed = true) :
    visibleCommits [delivery] = [] := by
  simp [visibleCommits, Delivery.visibleCommit, h]

omit [Blake3] in
/-- A mutation of the batch just appended stands in the history at its index. -/
theorem exists_change_extend (hm : machine.Aligned) {batch : StoredBatch}
    {mutation : LogicalMutation} (h : mutation ∈ batch.mutations) :
    ∃ change ∈ (machine.extend batch).stateStore.changes,
      change.mutation = mutation ∧ change.cursor.raftIndex = machine.appliedIndex + 1 := by
  obtain ⟨ordinal, hordinal⟩ := List.mem_iff_getElem?.mp h
  refine ⟨⟨⟨machine.appliedIndex + 1, ordinal⟩, mutation⟩, ?_, rfl, rfl⟩
  rw [ReplicaStore.mem_changes]
  refine ⟨batch, ?_, hordinal⟩
  rw [hm.applied]
  exact ReplicaStore.batchAt_push_self machine.stateStore batch

section Accepted

variable (h : Isolated past machine) (hm : machine.Sound) {term : ℕ}
  (records : List LogicalMutation)

include h hm

theorem Isolated.transaction {command : CommitSingleShardTransaction}
    (hfree : machine.Unopposed command.transactionId command.startTime
      command.snapshotAppliedIndex command.mutations) :
    Isolated (past ++ [((term, machine.appliedIndex + 1, .commitSingleShardTransaction command),
        machine.freshOutcome (persisted (.commitSingleShardTransaction command) .none records)
          false none)])
      (machine.settle term (.commitSingleShardTransaction command) .none records) := by
  refine h.committed (List.prefix_append _ _) ?_ rfl ?_ ?_ ?_
  · exact fun _ _ hget => hget
  · intro mutation hmem
    exact ⟨command.commitTime_spec.2 mutation hmem,
      exists_change_extend hm.toAligned (List.mem_append_left _ hmem)⟩
  · intro other hother _ hmeet
    exact hfree.respects (h.wrote other hother) hmeet
  · intro id intent hget hne hmeet
    have hfalse := hfree.prepared id intent hget (by rw [hm.key hget]; exact hne.symm)
    rw [writesMeet_iff, mutationsConflict_comm, hfalse] at hmeet
    cases hmeet

theorem Isolated.prepare {command : PrewriteIntent}
    (hfree : machine.Unopposed command.intent.transactionId command.intent.startTime
      command.intent.snapshotAppliedIndex command.intent.mutations) (outcome : ApplyOutcome) :
    Isolated (past ++ [((term, machine.appliedIndex + 1, .prewriteIntent command), outcome)])
      (machine.settle term (.prewriteIntent command) (.prepare command.intent) records) := by
  have heq : visibleCommits (past ++ [((term, machine.appliedIndex + 1,
      .prewriteIntent command), outcome)]) = visibleCommits past := by
    rw [visibleCommits_append]
    have hnone : visibleCommits [((term, machine.appliedIndex + 1,
        ShardCommand.prewriteIntent command), outcome)] = [] := by
      simp [visibleCommits, Delivery.visibleCommit, ShardCommand.visibleCommit]
    rw [hnone, List.append_nil]
  -- a prepared transaction is the new one or an old one
  have hactive : ∀ (id : TransactionId) (intent : ParticipantIntent),
      (machine.activeIntents.insert command.intent.transactionId command.intent)[id]? =
        some intent → id = command.intent.transactionId ∧ intent = command.intent ∨
          id ≠ command.intent.transactionId ∧ machine.activeIntents[id]? = some intent := by
    intro id intent hget
    rw [OrderedMap.lookup_insert] at hget
    split_ifs at hget with hid
    · cases hget
      exact .inl ⟨hid.symm, rfl⟩
    · exact .inr ⟨Ne.symm hid, hget⟩
  have hclear : ∀ (id : TransactionId) (intent : ParticipantIntent),
      machine.activeIntents[id]? = some intent → id ≠ command.intent.transactionId →
        ¬ WritesMeet command.intent.mutations intent.mutations := by
    intro id intent hget hne hmeet
    have hfalse := hfree.prepared id intent hget (by rwa [hm.key hget])
    rw [writesMeet_iff, hfalse] at hmeet
    cases hmeet
  constructor
  · rw [heq]
    intro commit hcommit
    exact (h.wrote commit hcommit).of_extends (List.prefix_append _ _)
  · rw [heq]
    intro id intent hget commit hcommit hne hmeet
    rcases hactive id intent hget with ⟨-, rfl⟩ | ⟨-, hold⟩
    · exact hfree.respects (h.wrote commit hcommit) hmeet
    · exact h.prepared id intent hold commit hcommit hne hmeet
  · intro id id' intent intent' hget hget' hne hmeet
    rcases hactive id intent hget with ⟨rfl, rfl⟩ | ⟨hid, hold⟩
    · rcases hactive id' intent' hget' with ⟨rfl, -⟩ | ⟨hid', hold'⟩
      · exact hne rfl
      · exact hclear id' intent' hold' hid' hmeet
    · rcases hactive id' intent' hget' with ⟨rfl, rfl⟩ | ⟨-, hold'⟩
      · exact hclear id intent hold hid hmeet.symm
      · exact h.apart id id' intent intent' hold hold' hne hmeet
  · rw [heq]
    exact h.commits

theorem Isolated.finalize {command : FinalizeParticipant} {intent : ParticipantIntent}
    (hactive : machine.activeIntents[command.terminal.id]? = some intent)
    (hintent : ∀ carried ∈ command.intent, carried = intent) :
    Isolated (past ++ [((term, machine.appliedIndex + 1, .finalizeParticipant command),
        machine.freshOutcome (persisted (.finalizeParticipant command)
          (.finalize command.terminal.id intent) records) false none)])
      (machine.settle term (.finalizeParticipant command) (.finalize command.terminal.id intent)
        records) := by
  have hkept : ∀ (id : TransactionId) (prepared : ParticipantIntent),
      (machine.activeIntents.erase command.terminal.id)[id]? = some prepared →
        id ≠ command.terminal.id ∧ machine.activeIntents[id]? = some prepared := by
    intro id prepared hget
    rw [OrderedMap.lookup_erase] at hget
    split_ifs at hget with hid
    exact ⟨Ne.symm hid, hget⟩
  cases hcarried : command.intent with
  | none =>
    refine h.unchanged (List.prefix_append _ _) (fun id prepared hget => (hkept id prepared hget).2) ?_
    simp [visibleCommits, Delivery.visibleCommit, ShardCommand.visibleCommit, hcarried]
  | some carried =>
    obtain rfl : carried = intent := hintent carried hcarried
    have hcommit : Delivery.visibleCommit ((term, machine.appliedIndex + 1,
        .finalizeParticipant command), machine.freshOutcome (persisted (.finalizeParticipant command)
          (.finalize command.terminal.id carried) records) false none) =
        some ⟨carried.transactionId, carried.startTime, carried.snapshotAppliedIndex.toNat,
          command.terminal.transactionTime, machine.appliedIndex + 1, carried.mutations⟩ := by
      simp [Delivery.visibleCommit, ShardCommand.visibleCommit, freshOutcome, hcarried]
    refine h.committed (List.prefix_append _ _)
      (fun id prepared hget => (hkept id prepared hget).2) hcommit ?_ ?_ ?_
    · intro mutation hmem
      refine ⟨(FinalizeParticipant.times hcarried).2 mutation hmem,
        exists_change_extend hm.toAligned (List.mem_append_left _ ?_)⟩
      change mutation ∈ command.mutations
      rw [FinalizeParticipant.mutations, hcarried]
      exact List.mem_append_left _ hmem
    · intro other hother hne hmeet
      exact h.prepared _ carried hactive other hother (by rwa [← hm.key hactive]) hmeet
    · intro id prepared hget hne hmeet
      obtain ⟨hid, hold⟩ := hkept id prepared hget
      exact h.apart id command.terminal.id prepared carried hold hactive hid hmeet

end Accepted

theorem Isolated.step (hm : machine.Sound) (h : Isolated past machine)
    (hstep : machine.Step deliveries machine') :
    Isolated (past ++ deliveries) machine' := by
  have hlog := hstep.log_prefix
  cases hstep with
  | redelivered term index command outcome hreplayed
  | closedAgain term index command outcome hreplayed =>
    exact h.unchanged hlog (fun _ _ hget => hget) (visibleCommits_replayed hreplayed)
  | noop | staged => exact h.unchanged hlog (fun _ _ hget => hget) rfl
  | rejected term command rejection hterm =>
    exact h.unchanged hlog (fun _ _ hget => hget)
      (by simp [visibleCommits, Delivery.visibleCommit, freshOutcome])
  | cutover term command generation target hterm hvalid hcut htarget hcopy =>
    exact h.unchanged hlog (fun _ _ hget => hget) rfl
  | accepted term command transition records hterm hvalid hstays haccepts hrecords hne =>
    cases haccepts with
    | transaction command hnew hfree => exact h.transaction hm records hfree
    | prepare command hnew hroom hstate hfree => exact h.prepare hm records hfree _
    | finalize command intent hactive hterminal hintent =>
      exact h.finalize hm records hactive hintent
    | transactionReplay | prepareReplay | finalizeReplay | homeDecisionReplay =>
      exact h.unchanged hlog (fun _ _ hget => hget) (visibleCommits_replayed rfl)
    | commit | homeDecision | advance | install
    | migrate => exact h.unchanged hlog (fun _ _ hget => hget) rfl

/-- Of two different transactions whose writes meet, one respects the other: it
started at or after the other's commit time, or its snapshot holds the other. -/
theorem conflicting_commits_ordered (binding : ReplicaBinding) {events : List Event}
    (h : (empty binding).AdmitsAll events) {a b : VisibleCommit}
    (ha : a ∈ visibleCommits ((empty binding).run events).1)
    (hb : b ∈ visibleCommits ((empty binding).run events).1)
    (hne : a.transactionId ≠ b.transactionId) (hmeet : WritesMeet a.mutations b.mutations) :
    a.Respects b ∨ b.Respects a := by
  have hisolated : Isolated ((empty binding).run events).1 ((empty binding).run events).2 := by
    refine (run_invariant Isolated binding ⟨?_, ?_, ?_, ?_⟩ Isolated.step h).1
    all_goals simp [visibleCommits, empty]
  exact hisolated.commits a ha b hb hne hmeet

/-- The sample vertex is written twice; the second transaction starts at the
commit time of the first. -/
def successiveWrites : List Event :=
  [.apply 1 1 (.commitSingleShardTransaction (sampleTransaction 1
      1 1 2 0 (by decide))),
    .apply 1 2 (.commitSingleShardTransaction (sampleTransaction 2
      2 2 3 0 (by decide)))]

omit [Blake3] in
theorem successiveWrites_ordered :
    letI := foldHash
    ∃ a b, visibleCommits ((empty sampleBinding).run successiveWrites).1 = [a, b] ∧
      (a.Respects b ∨ b.Respects a) := by
  let _ := foldHash
  refine ⟨⟨1, 1, 0, 2, 1,
      [sampleWrite 2]⟩, ⟨2, 2, 0,
      3, 2, [sampleWrite 3]⟩, rfl, ?_⟩
  refine @conflicting_commits_ordered foldHash sampleBinding successiveWrites ?_ _ _ ?_ ?_ ?_ ?_
  · exact admitsAll_of_plain _ rfl
  · exact List.mem_cons_self
  · exact List.mem_cons_of_mem _ List.mem_cons_self
  · decide
  · exact writesMeet_iff.mpr rfl

end ShardStateMachine

end Machine

end DtgProxy.Shard

import DtgProxy.Shard.Runs

/-! # Home decisions are written once

The home shard keeps one record per decided transaction: the encoding of the
whole command that decided it, header included.  A command is a replay exactly
if it encodes to that record, so the record never changes.
-/
namespace DtgProxy.Shard

open Kernel Lib Storage ReservedKey ReplicaStore

section Machine

variable [Blake3]

/-- Some batch of the log holds the record of the decision. -/
def Recorded (log : List StoredBatch) (command : RecordHomeDecision) : Prop :=
  ∃ batch ∈ log, ∃ metadata, homeDecisionMetadata command = .ok metadata ∧
    .putReplicaMetadata metadata ∈ batch.mutations

variable {metadata : ReplicaMetadata}

theorem homeDecisionMetadata_name {command : RecordHomeDecision}
    (h : homeDecisionMetadata command = .ok metadata) :
    metadata.name = (homeDecision command.decision.id).name := by
  obtain ⟨found, hfound, hname, -⟩ := exists_homeDecisionMetadata command
  cases h.symm.trans hfound
  exact hname

variable {transition : IntentTransition} {recorded : RecordHomeDecision}

namespace ShardStateMachine

variable {machine machine' : ShardStateMachine}
variable {command : RecordHomeDecision}
variable {batch : StoredBatch} {records : List LogicalMutation} {term : ℕ}
  {metadata : ReplicaMetadata}

/-- Every home decision ever written is the one the shard holds. -/
def DecidedOnce (machine : ShardStateMachine) : Prop :=
  ∀ batch ∈ machine.stateStore.log, ∀ (id : TransactionId) (metadata : ReplicaMetadata),
    .putReplicaMetadata metadata ∈ batch.mutations →
      metadata.name = (ReservedKey.homeDecision id).name →
        machine.record (.homeDecision id) = some metadata

/-- A batch without home decisions. -/
def Undecided (mutations : List LogicalMutation) : Prop :=
  ∀ id, ReplicaStore.lastMetadata (ReservedKey.homeDecision id).name mutations = none

omit [Blake3] in
/-- A batch keeps the invariant if each of its decisions is the last one in the batch and
goes into an empty place or repeats what stands there. -/
theorem DecidedOnce.push (h : machine.DecidedOnce)
    (hlog : machine'.stateStore.log = machine.stateStore.log ++ [batch])
    (hbatch : ∀ id metadata, .putReplicaMetadata metadata ∈ batch.mutations →
      metadata.name = (homeDecision id).name →
        lastMetadata (homeDecision id).name batch.mutations = some metadata ∧
          ∀ old ∈ machine.record (.homeDecision id), old = metadata) : machine'.DecidedOnce := by
  intro other hother id metadata hmem hname
  have hrecord : machine'.record (.homeDecision id) =
      (lastMetadata (homeDecision id).name batch.mutations).or
        (machine.record (.homeDecision id)) := by
    have hmutations : machine'.stateStore.mutations =
        machine.stateStore.mutations ++ batch.mutations := by
      simp [mutations, hlog]
    rw [record, replicaMetadata, hmutations, lastMetadata_append]
    rfl
  rw [hlog, List.mem_append, List.mem_singleton] at hother
  rw [hrecord]
  rcases hother with hold | rfl
  · have hstands := h other hold id metadata hmem hname
    cases hlast : lastMetadata (homeDecision id).name batch.mutations with
    | none => exact hstands
    | some last =>
      obtain ⟨hlastName, hlastMem⟩ := lastMetadata_name hlast
      rw [(hbatch id last hlastMem hlastName).2 metadata hstands]
      rfl
  · rw [(hbatch id metadata hmem hname).1]
    rfl

omit [Blake3] in
theorem DecidedOnce.of_undecided (h : machine.DecidedOnce)
    (hlog : machine'.stateStore.log = machine.stateStore.log ++ [batch])
    (hbatch : Undecided batch.mutations) : machine'.DecidedOnce :=
  h.push hlog fun id _ hmem hname =>
    absurd hmem (not_mem_of_lastMetadata_eq_none (hbatch id) hname)

theorem DecidedOnce.decide (h : machine.DecidedOnce) {decided : ReplicaMetadata}
    (hlog : machine'.stateStore = machine.stateStore.push batch)
    (hdecided : homeDecisionMetadata command = .ok decided)
    (hputs : ∀ metadata, .putReplicaMetadata metadata ∈ batch.mutations ↔ metadata = decided)
    (hplace : ∀ metadata, machine.record (.homeDecision command.decision.id) = some metadata →
      metadata = decided) : machine'.DecidedOnce := by
  refine h.push (congrArg (·.log) hlog) fun id metadata hmem hname => ?_
  obtain rfl := (hputs metadata).mp hmem
  cases name_injective (hname.symm.trans (homeDecisionMetadata_name hdecided))
  refine ⟨?_, hplace⟩
  cases hlast : lastMetadata (homeDecision command.decision.id).name batch.mutations with
  | none => exact absurd hmem (not_mem_of_lastMetadata_eq_none hlast hname)
  | some last => rw [(hputs last).mp (lastMetadata_name hlast).2]

theorem undecided_persisted {command : ShardCommand} (h : Undecided records) :
    Undecided (persisted command transition records) :=
  fun id => (lastMetadata_persisted rfl command transition records).trans (h id)

theorem undecided_intentRecords {intent : ParticipantIntent} {terminal : Option TransactionRecord}
    {active : OrderedMap TransactionId ParticipantIntent}
    (h : intentRecords intent terminal active = .ok records) : Undecided records := by
  obtain ⟨metadata, -, -, -, hlast⟩ := lastMetadata_intentRecords h
  intro id
  rw [hlast, if_neg (by simp), if_neg (by simp)]

theorem DecidedOnce.settle (h : machine.DecidedOnce) {command : ShardCommand}
    (haccepts : machine.Accepts command transition)
    (hrecords : machine.recordsOf command transition = .ok records) :
    (machine.settle term command transition records).DecidedOnce := by
  have hundecided : Undecided records →
      (machine.settle term command transition records).DecidedOnce := fun hnone =>
    h.of_undecided rfl (undecided_persisted hnone)
  have hputs : ∀ (decision : RecordHomeDecision) (decided metadata : ReplicaMetadata),
      .putReplicaMetadata metadata ∈ persisted (.recordHomeDecision decision) transition
        [.putReplicaMetadata decided] ↔ metadata = decided := by
    intro decision decided metadata
    rw [persisted, List.mem_append, List.mem_singleton, LogicalMutation.putReplicaMetadata.injEq]
    split_ifs <;> simp [ShardCommand.mutations]
  cases haccepts with
  | commit command | advance command | install command | migrate command =>
    cases hrecords
    exact hundecided fun _ => rfl
  | transaction command hnew hfree =>
    cases hrecords
    exact hundecided fun id =>
      lastMetadata_record (.singleShardTransaction command.transactionId) rfl (by simp)
  | transactionReplay command hold =>
    cases hrecords
    exact hundecided fun id =>
      lastMetadata_record (.singleShardTransaction command.transactionId) rfl (by simp)
  | prepare command hnew hroom hstate hfree => exact hundecided (undecided_intentRecords hrecords)
  | prepareReplay command hold => exact hundecided (undecided_intentRecords hrecords)
  | finalize command intent hactive hterminal hintent =>
    exact hundecided (undecided_intentRecords hrecords)
  | finalizeReplay command state hactive hstate hmatches =>
    obtain ⟨found, hfound, hrecords⟩ := Result.bind_eq_ok.mp hrecords
    rw [hstate] at hfound
    cases hfound
    exact hundecided (undecided_intentRecords hrecords)
  | homeDecision command hnew =>
    obtain ⟨decided, hdecided, hrecords⟩ := Result.bind_eq_ok.mp hrecords
    cases hrecords
    refine h.decide rfl hdecided (hputs command decided) ?_
    intro metadata hrecord
    cases hnew.symm.trans hrecord
  | homeDecisionReplay command metadata hmetadata hold =>
    obtain ⟨decided, hdecided, hrecords⟩ := Result.bind_eq_ok.mp hrecords
    cases hrecords
    refine h.decide rfl hdecided (hputs command decided) ?_
    intro found hrecord
    cases hold.symm.trans hrecord
    exact Except.ok.inj (hmetadata.symm.trans hdecided)

theorem DecidedOnce.step (h : machine.DecidedOnce) {deliveries : List Delivery}
    (hstep : machine.Step deliveries machine') : machine'.DecidedOnce := by
  cases hstep with
  | redelivered => exact h
  | closedAgain => exact h
  | noop =>
    exact h.of_undecided rfl fun id => lastMetadata_record .raftNoop rfl (by simp)
  | rejected =>
    exact h.of_undecided rfl fun id => lastMetadata_record .raftRejection rfl (by simp)
  | accepted term command transition records hterm hvalid hstays haccepts hrecords =>
    exact h.settle haccepts hrecords
  | cutover term command generation target hterm hvalid hcut htarget hcopy =>
    have hlog : (machine.cutOver term command generation target).stateStore.log =
        machine.stateStore.log ++ [⟨term, command.header.commandId,
          (ShardCommand.migration command).mutations⟩] := by
      rw [← hcopy]
      rfl
    exact h.of_undecided hlog fun id => (ShardCommand.migration command).lastMetadata_mutations rfl
  | staged => exact h

/-- The command names the placement the shard has. -/
def Placed (machine : ShardStateMachine) (header : CommandHeader) : Prop :=
  header.placementEpoch = machine.binding.placementEpoch ∧
    header.backendGeneration = machine.binding.backendGeneration

theorem Aligned.writeBatch_next (hm : machine.Aligned) (hterm : term ≠ 0) (commandId : CommandId)
    (metadata : ReplicaMetadata) :
    writeBatch machine.binding machine.stateStore term (machine.appliedIndex + 1) commandId
        [.putReplicaMetadata metadata] =
      .ok (⟨machine.appliedIndex + 1, digestMutations [.putReplicaMetadata metadata], false⟩,
        machine.stateStore.push ⟨term, commandId, [.putReplicaMetadata metadata]⟩) := by
  rw [hm.bound, hm.applied]
  exact Shard.writeBatch_next hterm (List.cons_ne_nil _ _) commandId

section Decided

variable (hrecord : machine.record (.homeDecision command.decision.id) = some metadata)

include hrecord

end Decided

end ShardStateMachine

end Machine

/-! ## The same decision under another header -/

namespace ShardStateMachine

end ShardStateMachine

end DtgProxy.Shard

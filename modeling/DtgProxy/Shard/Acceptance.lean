import DtgProxy.Shard.Records

/-! # When a command is accepted

The checks of a command and of its transaction, stated over the state they read:
what a valid command satisfies, when nothing stands against a transaction's
writes, and which transition each accepted command takes.
-/
namespace DtgProxy.Shard

open Kernel Lib Storage

namespace ShardStateMachine

/-- The index and the binding in memory are those of the store. -/
structure Aligned (machine : ShardStateMachine) : Prop where
  applied : machine.appliedIndex = machine.stateStore.appliedIndex
  bound : machine.binding = machine.stateStore.binding

def record (machine : ShardStateMachine) (key : ReservedKey) : Option ReplicaMetadata :=
  machine.stateStore.replicaMetadata key.name

/-- No prepared transaction writes at or below the time. -/
def Unfenced (machine : ShardStateMachine) (proposed : TransactionTime) : Prop :=
  ∀ (id : TransactionId) (intent : ParticipantIntent), machine.activeIntents[id]? = some intent →
    ∀ mutation ∈ intent.mutations, ∀ pending, graphMutationTime mutation = some pending →
      proposed < pending

theorem fenced_eq_false (machine : ShardStateMachine) (proposed : TransactionTime) :
    (OrderedMap.anyValue machine.activeIntents fun intent =>
      intent.mutations.any fun mutation =>
        (graphMutationTime mutation).any fun pending => decide (pending ≤ proposed)) = false ↔
      machine.Unfenced proposed := by
  rw [OrderedMap.anyValue_eq_false_iff]
  simp only [List.any_eq_false, Bool.not_eq_true, Option.any_eq_false, decide_eq_false_iff_not,
    not_le]
  rfl

variable {machine : ShardStateMachine}

theorem validateClosedTimestamp_eq_ok {proposed : TransactionTime} :
    machine.validateClosedTimestamp proposed = .ok () ↔
      (∀ current ∈ machine.closedTimestamp, current ≤ proposed) ∧ machine.Unfenced proposed := by
  rw [← fenced_eq_false, validateClosedTimestamp]
  split_ifs with hback hfence
  · obtain ⟨current, hcurrent, hlt⟩ := hback
    exact ⟨fun h => (nomatch h), fun h => absurd (h.1 current hcurrent) (not_le.mpr hlt)⟩
  · exact ⟨fun h => (nomatch h), fun h => absurd hfence (by simp [h.2])⟩
  · push Not at hback
    exact ⟨fun _ => ⟨hback, Bool.eq_false_iff.mpr hfence⟩, fun _ => rfl⟩

/-! ## Transactions that nothing stands against -/

/-- No other prepared transaction and no later change after the snapshot meets
the writes. -/
structure Unopposed (machine : ShardStateMachine) (transactionId : TransactionId)
    (startTime : TransactionTime) (snapshotAppliedIndex : UInt64)
    (candidate : List LogicalMutation) : Prop where
  prepared : ∀ (id : TransactionId) (intent : ParticipantIntent),
    machine.activeIntents[id]? = some intent → intent.transactionId ≠ transactionId →
      mutationsConflict candidate intent.mutations = false
  committed : ∀ change ∈ changesAfter machine.stateStore ⟨snapshotAppliedIndex.toNat, u64Max⟩,
    ∀ time, graphMutationTime change.mutation = some time → startTime < time →
      mutationsConflict candidate [change.mutation] = false

theorem visitConflict_eq_ok {startTime : TransactionTime} {candidate : List LogicalMutation}
    {change : ChangeRecord} :
    visitConflict startTime candidate change = .ok () ↔
      ∀ time, graphMutationTime change.mutation = some time → startTime < time →
        mutationsConflict candidate [change.mutation] = false := by
  unfold visitConflict
  cases graphMutationTime change.mutation with
  | none => simp
  | some time =>
    simp only [Option.any_some, Option.some.injEq, forall_eq']
    by_cases hlt : startTime < time
    · simp only [hlt, decide_true, Bool.true_and, forall_const]
      split_ifs with hconflict
      · simp [hconflict]
      · simpa using hconflict
    · simp [hlt]

variable {machine : ShardStateMachine} {transactionId : TransactionId}
  {startTime : TransactionTime} {snapshotAppliedIndex : UInt64}
  {candidate : List LogicalMutation}

theorem opposed_eq_false :
    (OrderedMap.anyValue machine.activeIntents fun intent =>
      decide (intent.transactionId ≠ transactionId) &&
        mutationsConflict candidate intent.mutations) = false ↔
      ∀ (id : TransactionId) (intent : ParticipantIntent),
        machine.activeIntents[id]? = some intent → intent.transactionId ≠ transactionId →
          mutationsConflict candidate intent.mutations = false := by
  rw [OrderedMap.anyValue_eq_false_iff]
  simp only [Bool.and_eq_false_imp, decide_eq_true_eq]

theorem validateWriteConflicts_eq_ok (hm : machine.Aligned)
    (hsnapshot : snapshotAppliedIndex.toNat ≤ machine.appliedIndex) :
    machine.validateWriteConflicts transactionId startTime snapshotAppliedIndex candidate = .ok () ↔
      machine.Unopposed transactionId startTime snapshotAppliedIndex candidate ∧
        (changesAfter machine.stateStore ⟨snapshotAppliedIndex.toNat, u64Max⟩).length ≤
          historyRecordBudget := by
  unfold validateWriteConflicts
  rw [hm.bound, hm.applied] at *
  split_ifs with hopposed
  · refine ⟨fun h => (nomatch h), fun h => ?_⟩
    rw [opposed_eq_false.mpr h.1.prepared] at hopposed
    cases hopposed
  · rw [forEachChange_eq_ok _ hsnapshot]
    simp only [visitConflict_eq_ok]
    rw [Bool.not_eq_true] at hopposed
    exact ⟨fun h => ⟨⟨opposed_eq_false.mp hopposed, h.2⟩, h.1⟩, fun h => ⟨h.2, h.1.committed⟩⟩

section Validation

variable [Blake3]

structure Valid (machine : ShardStateMachine) (command : ShardCommand) : Prop where
  placed : machine.cutsOver command = false →
    command.header.placementEpoch = machine.binding.placementEpoch ∧
      command.header.backendGeneration = machine.binding.backendGeneration
  shard : ∀ intent ∈ command.intent, intent.shardId = machine.binding.shardId
  snapshot : ∀ snapshot ∈ command.snapshotAppliedIndex, snapshot.toNat ≤ machine.appliedIndex
  closed : ∀ closing, command = .advanceClosedTimestamp closing →
    (∀ current ∈ machine.closedTimestamp, current ≤ closing.closedTimestamp) ∧
      machine.Unfenced closing.closedTimestamp

theorem validateCommand_eq_ok {command : ShardCommand} :
    machine.validateCommand command = .ok () ↔ machine.Valid command := by
  constructor
  · intro h
    unfold validateCommand at h
    split_ifs at h with hepoch hgeneration hshard hsnapshot
    push Not at hepoch hgeneration hshard hsnapshot
    refine ⟨fun hcut => ⟨hepoch hcut, hgeneration hcut⟩, hshard, hsnapshot, ?_⟩
    rintro closing rfl
    exact validateClosedTimestamp_eq_ok.mp h
  · rintro ⟨hplaced, hshard, hsnapshot, hclosed⟩
    unfold validateCommand
    rw [if_neg, if_neg, if_neg, if_neg]
    · cases command with
      | advanceClosedTimestamp closing =>
        exact validateClosedTimestamp_eq_ok.mpr (hclosed closing rfl)
      | _ => rfl
    · push Not
      exact hsnapshot
    · push Not
      exact hshard
    · push Not
      exact fun hcut => (hplaced hcut).2
    · push Not
      exact fun hcut => (hplaced hcut).1

/-! ## Accepted transitions -/

/-- The transition of an accepted command, with what the state had to be. -/
inductive Accepts (machine : ShardStateMachine) : ShardCommand → IntentTransition → Prop where
  | commit (command : CommitSingleShard) : Accepts machine (.commitSingleShard command) .none
  | transaction (command : CommitSingleShardTransaction)
      (hnew : machine.record (.singleShardTransaction command.transactionId) = none)
      (hfree : machine.Unopposed command.transactionId command.startTime
        command.snapshotAppliedIndex command.mutations) :
      Accepts machine (.commitSingleShardTransaction command) .none
  | transactionReplay (command : CommitSingleShardTransaction)
      (hold : machine.record (.singleShardTransaction command.transactionId) =
        some (singleShardTransactionMetadata command)) :
      Accepts machine (.commitSingleShardTransaction command) .replay
  | prepare (command : PrewriteIntent)
      (hnew : machine.activeIntents[command.intent.transactionId]? = none)
      (hroom : machine.activeIntents.size ≠ maxTransactionIntentItems)
      (hstate : machine.record (.transactionState command.intent.transactionId) = none)
      (hfree : machine.Unopposed command.intent.transactionId command.intent.startTime
        command.intent.snapshotAppliedIndex command.intent.mutations) :
      Accepts machine (.prewriteIntent command) (.prepare command.intent)
  | prepareReplay (command : PrewriteIntent)
      (hold : machine.activeIntents[command.intent.transactionId]? = some command.intent) :
      Accepts machine (.prewriteIntent command) .replay
  | finalize (command : FinalizeParticipant) (intent : ParticipantIntent)
      (hactive : machine.activeIntents[command.terminal.id]? = some intent)
      (hterminal : validateIntentTerminal intent command.terminal = .ok ())
      (hintent : ∀ carried ∈ command.intent, carried = intent) :
      Accepts machine (.finalizeParticipant command) (.finalize command.terminal.id intent)
  | finalizeReplay (command : FinalizeParticipant) (state : DurableTransactionState)
      (hactive : machine.activeIntents[command.terminal.id]? = none)
      (hstate : machine.durableTransactionState command.terminal.id = .ok (some state))
      (hmatches : state.matchesFinalize command = true) :
      Accepts machine (.finalizeParticipant command) .replay
  | homeDecision (command : RecordHomeDecision)
      (hnew : machine.record (.homeDecision command.decision.id) = none) :
      Accepts machine (.recordHomeDecision command) .none
  | homeDecisionReplay (command : RecordHomeDecision) (metadata : ReplicaMetadata)
      (hmetadata : homeDecisionMetadata command = .ok metadata)
      (hold : machine.record (.homeDecision command.decision.id) = some metadata) :
      Accepts machine (.recordHomeDecision command) .replay
  | advance (command : AdvanceClosedTimestamp) :
      Accepts machine (.advanceClosedTimestamp command) .none
  | install (command : InstallSnapshot) : Accepts machine (.installSnapshot command) .none
  | migrate (command : MigrationCommand) : Accepts machine (.migration command) .none

variable {command : ShardCommand} {transition : IntentTransition}

theorem accepts_transaction (hm : machine.Aligned) {command : CommitSingleShardTransaction}
    (hvalid : machine.Valid (.commitSingleShardTransaction command))
    (h : machine.acceptSingleShardTransaction command = .ok transition) :
    machine.Accepts (.commitSingleShardTransaction command) transition := by
  obtain ⟨durable, hdurable, h⟩ := Result.bind_eq_ok.mp h
  unfold singleShardTransactionIsDurable at hdurable
  dsimp only at hdurable
  split at hdurable
  · next hrecord =>
    cases hdurable
    obtain ⟨_, hconflicts, h⟩ := Result.bind_eq_ok.mp h
    cases h
    have hsnapshot := hvalid.snapshot command.snapshotAppliedIndex rfl
    exact .transaction command hrecord ((validateWriteConflicts_eq_ok hm hsnapshot).mp hconflicts).1
  · next hrecord =>
    obtain ⟨_, -, hdurable⟩ := Result.bind_eq_ok.mp hdurable
    split_ifs at hdurable with heq
    cases hdurable
    cases h
    subst heq
    exact .transactionReplay command hrecord

theorem durableTransactionState_eq_none {id : TransactionId}
    (h : machine.durableTransactionState id = .ok none) :
    machine.record (.transactionState id) = none := by
  unfold durableTransactionState at h
  split at h
  · next hrecord => exact hrecord
  · obtain ⟨_, -, h⟩ := Result.bind_eq_ok.mp h
    cases h

theorem accepts_prewrite (hm : machine.Aligned) {command : PrewriteIntent}
    (hvalid : machine.Valid (.prewriteIntent command))
    (h : machine.acceptPrewrite command.intent = .ok transition) :
    machine.Accepts (.prewriteIntent command) transition := by
  unfold acceptPrewrite at h
  split at h
  · next hactive =>
    split_ifs at h with heq
    cases h
    exact .prepareReplay command (hactive.trans (congrArg some heq))
  · next hactive =>
    split_ifs at h with hroom
    obtain ⟨state, hstate, h⟩ := Result.bind_eq_ok.mp h
    split_ifs at h with hsome
    obtain ⟨_, hconflicts, h⟩ := Result.bind_eq_ok.mp h
    cases h
    rw [Option.not_isSome_iff_eq_none] at hsome
    have hsnapshot := hvalid.snapshot command.intent.snapshotAppliedIndex rfl
    exact .prepare command hactive hroom (durableTransactionState_eq_none (hsome ▸ hstate))
      ((validateWriteConflicts_eq_ok hm hsnapshot).mp hconflicts).1

theorem accepts_finalize {command : FinalizeParticipant}
    (h : machine.acceptFinalize command = .ok transition) :
    machine.Accepts (.finalizeParticipant command) transition := by
  unfold acceptFinalize at h
  split at h
  · next active hactive =>
    split_ifs at h with hbad
    push Not at hbad
    obtain ⟨_, hterminal, h⟩ := Result.bind_eq_ok.mp h
    cases h
    exact .finalize command active hactive hterminal hbad.2
  · next hactive =>
    obtain ⟨state, hstate, h⟩ := Result.bind_eq_ok.mp h
    cases state with
    | none => cases h
    | some state =>
      simp only at h
      split_ifs at h with hmatches
      cases h
      exact .finalizeReplay command state hactive hstate hmatches

theorem accepts_homeDecision {command : RecordHomeDecision}
    (h : machine.validateTransactionAcceptance (.recordHomeDecision command) = .ok transition) :
    machine.Accepts (.recordHomeDecision command) transition := by
  obtain ⟨metadata, hmetadata, hname, -⟩ := exists_homeDecisionMetadata command
  obtain ⟨durable, hdurable, h⟩ := Result.bind_eq_ok.mp h
  unfold homeDecisionIsDurable at hdurable
  simp only [hmetadata, bind, Except.bind] at hdurable
  rw [hname] at hdurable
  split at hdurable
  · next hrecord =>
    cases hdurable
    cases h
    exact .homeDecision command hrecord
  · next found hrecord =>
    split_ifs at hdurable with heq
    · cases hdurable
      cases h
      subst heq
      exact .homeDecisionReplay command found hmetadata hrecord
    · cases hdecode : decodeHomeDecisionMetadata found <;> simp [hdecode] at hdurable

theorem accepts_of_eq_ok (hm : machine.Aligned) (hvalid : machine.Valid command)
    (h : machine.validateTransactionAcceptance command = .ok transition) :
    machine.Accepts command transition := by
  cases command with
  | commitSingleShard command =>
    cases h
    exact .commit command
  | commitSingleShardTransaction => exact accepts_transaction hm hvalid h
  | prewriteIntent => exact accepts_prewrite hm hvalid h
  | recordHomeDecision => exact accepts_homeDecision h
  | finalizeParticipant => exact accepts_finalize h
  | advanceClosedTimestamp command =>
    cases h
    exact .advance command
  | installSnapshot command =>
    cases h
    exact .install command
  | migration command =>
    cases h
    exact .migrate command

end Validation

end ShardStateMachine

end DtgProxy.Shard

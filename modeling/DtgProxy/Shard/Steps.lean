import DtgProxy.Shard.Soundness

/-! # Steps of a shard

Everything a delivery can do to a sound machine, as one relation: it is a
redelivery, or it appends one batch, which is a no-op, a rejection, an accepted
command or a cutover.  Invariants of runs are proved over this relation.
-/
namespace DtgProxy.Shard

open Kernel Lib Storage

def IntentTransition.isReplay : IntentTransition → Bool
  | .replay => true
  | _ => false

section Machine

variable [Blake3]

/-- An entry that was applied, with its outcome. -/
abbrev Delivery := ShardStateMachine.Entry × ApplyOutcome

variable {machine' : ShardStateMachine} {deliveries : List Delivery} {index : ℕ}
  {target : ReplicaStore}

namespace ShardStateMachine

variable {command : ShardCommand}

def extend (machine : ShardStateMachine) (batch : StoredBatch) : ShardStateMachine :=
  { machine with
    stateStore := machine.stateStore.push batch
    appliedIndex := machine.appliedIndex + 1 }

/-- The mutations of an accepted command at a new index. -/
def persisted (command : ShardCommand) (transition : IntentTransition)
    (records : List LogicalMutation) : List LogicalMutation :=
  (if transition.isReplay then [] else command.mutations) ++ records

def settle (machine : ShardStateMachine) (term : ℕ) (command : ShardCommand)
    (transition : IntentTransition) (records : List LogicalMutation) : ShardStateMachine :=
  { machine.extend ⟨term, command.header.commandId, persisted command transition records⟩ with
    closedTimestamp := machine.nextClosedTimestamp command
    activeIntents := machine.nextActiveIntents transition }

/-- The outcome of a batch at the next index. -/
def freshOutcome (machine : ShardStateMachine) (mutations : List LogicalMutation)
    (replayed : Bool) (rejection : Option ApplyRejection) : ApplyOutcome :=
  ⟨digestMutations mutations, machine.appliedIndex + 1, replayed, rejection, machine.binding⟩

def cutOver (machine : ShardStateMachine) (term : ℕ) (command : MigrationCommand)
    (generation : BackendGeneration) (target : ReplicaStore) : ShardStateMachine :=
  { machine with
    binding := target.binding
    stateStore := target.push
      ⟨term, command.header.commandId, (ShardCommand.migration command).mutations⟩
    appliedIndex := machine.appliedIndex + 1
    migrationStateStores := machine.migrationStateStores.erase generation }

/-- One step, with the deliveries it answers. -/
inductive Step (machine : ShardStateMachine) : List Delivery → ShardStateMachine → Prop where
  | redelivered (term index : ℕ) (command : ShardCommand) (outcome : ApplyOutcome)
      (hreplayed : outcome.replayed = true) (hle : index ≤ machine.appliedIndex) :
      Step machine [((term, index, command), outcome)] machine
  | closedAgain (term index : ℕ) (command : AdvanceClosedTimestamp) (outcome : ApplyOutcome)
      (hreplayed : outcome.replayed = true) (hle : index ≤ machine.appliedIndex)
      (hvalid : machine.Valid (.advanceClosedTimestamp command))
      (hsame : SameBatch machine.stateStore term index command.header.commandId
        (ShardCommand.advanceClosedTimestamp command).mutations) :
      Step machine [((term, index, .advanceClosedTimestamp command), outcome)]
        { machine with closedTimestamp := some command.closedTimestamp }
  | noop (term : ℕ) (commandId : CommandId) (hterm : term ≠ 0) :
      Step machine [] (machine.extend
        ⟨term, commandId, [.putReplicaMetadata (noopMetadata (machine.appliedIndex + 1))]⟩)
  | rejected (term : ℕ) (command : ShardCommand) (rejection : ApplyRejection) (hterm : term ≠ 0) :
      Step machine
        [((term, machine.appliedIndex + 1, command),
          machine.freshOutcome [.putReplicaMetadata
            (rejectionMetadata command.header.commandId rejection)] false (some rejection))]
        (machine.extend ⟨term, command.header.commandId,
          [.putReplicaMetadata (rejectionMetadata command.header.commandId rejection)]⟩)
  | accepted (term : ℕ) (command : ShardCommand) (transition : IntentTransition)
      (records : List LogicalMutation) (hterm : term ≠ 0) (hvalid : machine.Valid command)
      (hstays : machine.cutsOver command = false) (haccepts : machine.Accepts command transition)
      (hrecords : machine.recordsOf command transition = .ok records)
      (hne : persisted command transition records ≠ []) :
      Step machine
        [((term, machine.appliedIndex + 1, command),
          machine.freshOutcome (persisted command transition records) transition.isReplay none)]
        (machine.settle term command transition records)
  | cutover (term : ℕ) (command : MigrationCommand) (generation : BackendGeneration)
      (target : ReplicaStore) (hterm : term ≠ 0) (hvalid : machine.Valid (.migration command))
      (hcut : machine.cutsOver (.migration command) = true)
      (htarget : machine.cutoverTarget command = .ok (generation, target))
      (hcopy : target.log = machine.stateStore.log) :
      Step machine
        [((term, machine.appliedIndex + 1, .migration command),
          ⟨digestMutations (ShardCommand.migration command).mutations, machine.appliedIndex + 1,
            false, none, target.binding⟩)]
        (machine.cutOver term command generation target)
  | staged (stores : OrderedMap BackendGeneration ReplicaStore)
      (hshard : ∀ (generation : BackendGeneration) (target : ReplicaStore),
        stores[generation]? = some target → target.binding.shardId = machine.binding.shardId) :
      Step machine [] { machine with migrationStateStores := stores }

/-- Steps one after the other, with all their deliveries. -/
inductive Steps : ShardStateMachine → List Delivery → ShardStateMachine → Prop where
  | refl {machine : ShardStateMachine} : Steps machine [] machine
  | head {machine next last : ShardStateMachine} {first rest : List Delivery}
      (hstep : Step machine first next) (hsteps : Steps next rest last) :
      Steps machine (first ++ rest) last

variable {machine : ShardStateMachine}

theorem Step.steps (h : machine.Step deliveries machine') :
    machine.Steps deliveries machine' := by
  have hsteps := Steps.head h .refl
  rwa [List.append_nil] at hsteps

theorem Steps.trans {middle last : ShardStateMachine} {first rest : List Delivery}
    (hfirst : machine.Steps first middle) (hrest : middle.Steps rest last) :
    machine.Steps (first ++ rest) last := by
  induction hfirst with
  | refl => exact hrest
  | head hstep _ ih =>
    rw [List.append_assoc]
    exact .head hstep (ih hrest)

theorem Step.log_prefix (h : machine.Step deliveries machine') :
    machine.stateStore.log <+: machine'.stateStore.log := by
  cases h with
  | redelivered | closedAgain | staged => exact List.prefix_refl _
  | noop | rejected => exact List.prefix_append _ _
  | accepted term command transition records hterm hvalid hstays haccepts hrecords hne =>
    exact List.prefix_append _ _
  | cutover term command generation target hterm hvalid hcut htarget hcopy =>
    rw [← hcopy]
    exact List.prefix_append _ _

/-! ## A failed write -/

theorem reject_fault (machine : ShardStateMachine) (term index : ℕ) (command : ShardCommand)
    (error : ShardError) (fault : StorageError) :
    ∃ error', machine.reject term index command error (some fault) = (.error error', machine) := by
  unfold reject
  cases committedRejection error with
  | none => exact ⟨error, rfl⟩
  | some rejection =>
    simp only [applyRejected, applyRecord]
    obtain ⟨error', h⟩ := writeBatch_fault machine.binding machine.stateStore term index
      command.header.commandId
      [.putReplicaMetadata (rejectionMetadata command.header.commandId rejection)] fault
    exact ⟨error', by rw [h]⟩

theorem applyValidated_fault (machine : ShardStateMachine) (term index : ℕ)
    (command : ShardCommand) (fault : StorageError) :
    ∃ error, machine.applyValidated term index command (some fault) = (.error error, machine) := by
  have hfails := writeBatch_fault machine.binding machine.stateStore term index
    command.header.commandId
  unfold applyValidated
  split_ifs
  · unfold replayOldTransactionCommand
    cases mutationsAtIndex machine.binding machine.stateStore machine.appliedIndex index with
    | error => exact ⟨_, rfl⟩
    | ok mutations =>
      simp only [bind, Except.bind]
      cases validateHistoricalTransactionBatch command mutations with
      | error => exact ⟨_, rfl⟩
      | ok =>
        obtain ⟨error, h⟩ := hfails mutations fault
        exact ⟨error, by simp only [h]⟩
  · cases machine.validateTransactionAcceptance command with
    | error error => exact reject_fault machine term index command error fault
    | ok transition =>
      simp only [applyAccepted]
      cases machine.recordsOf command transition with
      | error => exact ⟨_, rfl⟩
      | ok records =>
        obtain ⟨error, h⟩ := hfails ((if machine.logicalReplay index transition then []
          else command.mutations) ++ records) fault
        exact ⟨error, by simp only [h]⟩

/-- A delivery whose write fails leaves the machine as it was. -/
theorem applyCommitted_fault (machine : ShardStateMachine) (term index : ℕ)
    (command : ShardCommand) (fault : StorageError) :
    ∃ error, machine.applyCommitted term index command (some fault) = (.error error, machine) := by
  unfold applyCommitted
  cases machine.validateCommand command with
  | error error => exact reject_fault machine term index command error fault
  | ok =>
    have hvalidated := machine.applyValidated_fault term index command fault
    cases command with
    | migration command =>
      simp only
      split_ifs
      · unfold applyMigrationCutover
        cases machine.cutoverTarget command with
        | error => exact ⟨_, rfl⟩
        | ok found =>
          obtain ⟨error, h⟩ := writeBatch_fault found.2.binding found.2 term index
            command.header.commandId (ShardCommand.migration command).mutations fault
          exact ⟨error, by simp only [h]⟩
      · exact hvalidated
    | _ => exact hvalidated

/-! ## Every delivery is a step -/

theorem Aligned.writeBatch_cases (hm : machine.Aligned) (term index : ℕ) (commandId : CommandId)
    (mutations : List LogicalMutation) :
    Offered machine.stateStore machine.appliedIndex term index commandId mutations
      (writeBatch machine.binding machine.stateStore term index commandId mutations) := by
  rw [hm.bound, hm.applied]
  exact Shard.writeBatch_cases machine.stateStore term index commandId mutations

theorem applyRecord_cases (hm : machine.Aligned) (term index : ℕ) (commandId : CommandId)
    (metadata : ReplicaMetadata) (rejection : Option ApplyRejection) :
    (∃ error, machine.applyRecord term index commandId metadata rejection =
        (.error error, machine)) ∨
      (index ≤ machine.appliedIndex ∧
        machine.applyRecord term index commandId metadata rejection =
          (.ok ⟨digestMutations [.putReplicaMetadata metadata], index, true, rejection,
            machine.binding⟩, machine)) ∨
      (index = machine.appliedIndex + 1 ∧ term ≠ 0 ∧
        machine.applyRecord term index commandId metadata rejection =
          (.ok (machine.freshOutcome [.putReplicaMetadata metadata] false rejection),
            machine.extend ⟨term, commandId, [.putReplicaMetadata metadata]⟩)) := by
  unfold applyRecord
  rcases hm.writeBatch_cases term index commandId [.putReplicaMetadata metadata]
    with ⟨error, h⟩ | ⟨hle, -, h⟩ | ⟨hnext, hterm, -, h⟩
  · rw [h]
    exact .inl ⟨error, rfl⟩
  · rw [h]
    refine .inr (.inl ⟨hle, ?_⟩)
    simp only [max_eq_left hle]
  · rw [h, hnext]
    refine .inr (.inr ⟨rfl, hterm, ?_⟩)
    simp only [max_eq_right (Nat.le_succ machine.appliedIndex)]
    rfl

/-- The delivery of an entry fails without effect or is a step. -/
def FailsOrSteps (machine : ShardStateMachine) (entry : Entry)
    (result : Except ShardError ApplyOutcome × ShardStateMachine) : Prop :=
  (∃ error, result = (.error error, machine)) ∨
    ∃ outcome machine', result = (.ok outcome, machine') ∧
      machine.Step [(entry, outcome)] machine'

theorem reject_cases (hm : machine.Aligned) (term index : ℕ) (command : ShardCommand)
    (error : ShardError) :
    machine.FailsOrSteps (term, index, command) (machine.reject term index command error) := by
  unfold reject
  cases committedRejection error with
  | none => exact .inl ⟨error, rfl⟩
  | some rejection =>
    rcases applyRecord_cases hm term index command.header.commandId
      (rejectionMetadata command.header.commandId rejection) (some rejection)
      with ⟨error', h⟩ | ⟨hle, h⟩ | ⟨rfl, hterm, h⟩
    · exact .inl ⟨error', h⟩
    · exact .inr ⟨_, _, h, .redelivered term index command _ rfl hle⟩
    · exact .inr ⟨_, _, h, .rejected term command rejection hterm⟩

theorem applyAccepted_cases (hm : machine.Aligned) (term index : ℕ) {transition : IntentTransition}
    (hvalid : machine.Valid command) (hstays : machine.cutsOver command = false)
    (haccepts : machine.Accepts command transition) :
    machine.FailsOrSteps (term, index, command)
      (machine.applyAccepted term index command transition) := by
  unfold applyAccepted
  cases hrecords : machine.recordsOf command transition with
  | error error => exact .inl ⟨error, rfl⟩
  | ok records =>
    simp only
    rcases hm.writeBatch_cases term index command.header.commandId
      ((if machine.logicalReplay index transition then [] else command.mutations) ++ records)
      with ⟨error, h⟩ | ⟨hle, hsame, h⟩ | ⟨rfl, hterm, hne, h⟩
    · rw [h]
      exact .inl ⟨error, rfl⟩
    · rw [h]
      refine .inr ⟨_, _, rfl, ?_⟩
      simp only [max_eq_left hle, if_true, Bool.true_or]
      cases command with
      | advanceClosedTimestamp command =>
        cases haccepts
        cases hrecords
        exact .closedAgain term index command _ rfl hle hvalid hsame
      | _ => exact .redelivered term index _ _ rfl hle
    · have hreplay : machine.logicalReplay (machine.appliedIndex + 1) transition =
          transition.isReplay := by
        cases transition <;> simp [logicalReplay, IntentTransition.isReplay]
      rw [hreplay] at h hne
      rw [hreplay, h]
      refine .inr ⟨_, _, rfl, ?_⟩
      simp only [max_eq_right (Nat.le_succ machine.appliedIndex), Bool.false_or]
      exact .accepted term command transition records hterm hvalid hstays haccepts hrecords hne

theorem replayOldTransactionCommand_cases (hm : machine.Aligned) (term : ℕ)
    (hold : index < machine.appliedIndex) (command : ShardCommand) :
    machine.FailsOrSteps (term, index, command)
      (machine.replayOldTransactionCommand term index command) := by
  unfold replayOldTransactionCommand
  cases hmutations : mutationsAtIndex machine.binding machine.stateStore machine.appliedIndex index
    with
  | error error => exact .inl ⟨error, rfl⟩
  | ok mutations =>
    simp only [bind, Except.bind]
    cases hvalid : validateHistoricalTransactionBatch command mutations with
    | error error => exact .inl ⟨error, rfl⟩
    | ok =>
      rcases hm.writeBatch_cases term index command.header.commandId mutations
        with ⟨error, h⟩ | ⟨hle, -, h⟩ | ⟨hnext, -, -, -⟩
      · rw [h]
        exact .inl ⟨error, rfl⟩
      · rw [h]
        exact .inr ⟨_, _, rfl, .redelivered term index command _ rfl hle⟩
      · omega

omit [Blake3] in
theorem cutoverTarget_eq_ok {command : MigrationCommand} {generation : BackendGeneration}
    (h : machine.cutoverTarget command = .ok (generation, target)) :
    machine.migrationStateStores[generation]? = some target ∧
      target.binding.placementEpoch = command.header.placementEpoch ∧
      target.binding.backendGeneration = generation ∧
      ∃ context ∈ command.online, context.targetGeneration = generation ∧
        target.binding.backendClassDigest = context.targetBackendClassDigest ∧
        context.verifiedIndex.toNat = machine.appliedIndex := by
  unfold cutoverTarget at h
  split at h
  · cases h
  · next context honline =>
    split at h
    · cases h
    · next hstore =>
      split_ifs at h with hbad
      cases h
      push Not at hbad
      obtain ⟨hepoch, hgeneration, hdigest, hindex⟩ := hbad
      exact ⟨hstore, hepoch, hgeneration, context, honline, rfl, hdigest, hindex⟩

/-- A copy of a sound machine's store restores its prepared transactions. -/
theorem Sound.rebuild_copy (hm : machine.Sound) {batch : StoredBatch}
    (hcopy : target.log = machine.stateStore.log)
    (hshard : target.binding.shardId = machine.binding.shardId)
    (hbatch : ∀ key : ReservedKey, key.decides = true →
      ReplicaStore.lastMetadata key.name batch.mutations = none)
    (hindex : machine.appliedIndex ≤ index) :
    rebuildActiveIntents target.binding (target.push batch) index = .ok machine.activeIntents := by
  have hrecord : ∀ key : ReservedKey, key.decides = true →
      (target.push batch).replicaMetadata key.name =
        machine.stateStore.replicaMetadata key.name := by
    intro key hkey
    rw [ReplicaStore.replicaMetadata_push, hbatch key hkey, Option.none_or]
    unfold ReplicaStore.replicaMetadata ReplicaStore.mutations
    rw [hcopy]
  apply rebuildActiveIntents_eq hm.room
  · unfold ListsActive
    rw [hrecord .activeIntents rfl]
    exact hm.listed
  · intro id intent hactive
    obtain ⟨hintent, hsnapshot, metadata, hstate, hrest⟩ := hm.keyed id intent hactive
    refine ⟨hintent.trans hshard.symm, le_trans hsnapshot hindex, metadata, ?_, hrest⟩
    rw [hrecord (.transactionState id) rfl]
    exact hstate

/-- A cutover comes at the next index, and the store it would move to holds a part of
the machine's log or all of it. -/
def InOrder (machine : ShardStateMachine) (index : ℕ) : ShardCommand → Prop
  | .migration command => machine.cutsOver (.migration command) = true →
    index = machine.appliedIndex + 1 ∧ ∀ generation target,
      machine.cutoverTarget command = .ok (generation, target) →
        target.log <+: machine.stateStore.log
  | _ => True

/-- A cutover at the next index to a copy of the log fails without effect or moves the
machine to that copy. -/
theorem applyMigrationCutover_cases (hm : machine.Sound) (term : ℕ) {command : MigrationCommand}
    (hcopied : ∀ generation target, machine.cutoverTarget command = .ok (generation, target) →
      target.log <+: machine.stateStore.log) :
    (∃ error, machine.applyMigrationCutover term (machine.appliedIndex + 1) command =
        (.error error, machine)) ∨
      ∃ generation target, term ≠ 0 ∧ machine.cutoverTarget command = .ok (generation, target) ∧
        target.log = machine.stateStore.log ∧
        machine.applyMigrationCutover term (machine.appliedIndex + 1) command =
          (.ok ⟨digestMutations (ShardCommand.migration command).mutations,
            machine.appliedIndex + 1, false, none, target.binding⟩,
            machine.cutOver term command generation target) := by
  unfold applyMigrationCutover
  cases htarget : machine.cutoverTarget command with
  | error error => exact .inl ⟨error, rfl⟩
  | ok found =>
    obtain ⟨generation, target⟩ := found
    obtain ⟨hstaged, -⟩ := cutoverTarget_eq_ok htarget
    have hshard := hm.staged generation target hstaged
    replace hcopied := hcopied generation target htarget
    have hle : target.appliedIndex ≤ machine.appliedIndex := by
      rw [hm.applied]
      exact hcopied.length_le
    simp only
    rcases writeBatch_cases target term (machine.appliedIndex + 1) command.header.commandId
      (ShardCommand.migration command).mutations with ⟨error, h⟩ | ⟨hold, -, h⟩ | ⟨hnext, hterm, -, h⟩
    · rw [h]
      exact .inl ⟨error, rfl⟩
    · omega
    · have hcopy : target.log = machine.stateStore.log := by
        apply hcopied.eq_of_length
        change target.appliedIndex = machine.stateStore.appliedIndex
        rw [← hm.applied]
        omega
      have hrebuild : rebuildActiveIntents target.binding (target.push
          ⟨term, command.header.commandId, (ShardCommand.migration command).mutations⟩)
          (machine.appliedIndex + 1) = .ok machine.activeIntents :=
        hm.rebuild_copy hcopy hshard
          (fun key hkey => (ShardCommand.migration command).lastMetadata_mutations hkey)
          (Nat.le_succ machine.appliedIndex)
      rw [h]
      simp only [hrebuild]
      exact .inr ⟨generation, target, hterm, rfl, hcopy, rfl⟩

theorem applyValidated_cases (hm : machine.Aligned) (term index : ℕ)
    (hvalid : machine.Valid command) (hstays : machine.cutsOver command = false) :
    machine.FailsOrSteps (term, index, command)
      (machine.applyValidated term index command) := by
  unfold applyValidated
  split_ifs with hold
  · exact replayOldTransactionCommand_cases hm term hold.1 command
  · cases haccept : machine.validateTransactionAcceptance command with
    | error error => exact reject_cases hm term index command error
    | ok =>
      exact applyAccepted_cases hm term index hvalid hstays (accepts_of_eq_ok hm hvalid haccept)

theorem applyCommitted_cases (hm : machine.Sound) (term : ℕ) {index : ℕ}
    (horder : machine.InOrder index command) :
    machine.FailsOrSteps (term, index, command) (machine.applyCommitted term index command) := by
  unfold applyCommitted
  cases hcheck : machine.validateCommand command with
  | error error => exact reject_cases hm.toAligned term index command error
  | ok =>
    have hvalid := validateCommand_eq_ok.mp hcheck
    cases command with
    | migration command =>
      simp only
      split_ifs with hcut
      · obtain ⟨rfl, hcopied⟩ := horder hcut
        rcases applyMigrationCutover_cases hm term hcopied with
          herror | ⟨generation, target, hterm, htarget, hcopy, h⟩
        · exact .inl herror
        · exact .inr ⟨_, _, h, .cutover term command generation target hterm hvalid hcut htarget hcopy⟩
      · exact applyValidated_cases hm.toAligned term index hvalid (Bool.eq_false_iff.mpr hcut)
    | _ => exact applyValidated_cases hm.toAligned term index hvalid rfl

theorem applyRaftNoop_cases (hm : machine.Aligned) (term index : ℕ) :
    (machine.applyRaftNoop term index).2 = machine ∨
      machine.Step [] (machine.applyRaftNoop term index).2 := by
  unfold applyRaftNoop
  cases noopCommandId term index with
  | none => exact .inl rfl
  | some commandId =>
    simp only
    rcases applyRecord_cases hm term index commandId (noopMetadata index) none
      with ⟨error, h⟩ | ⟨-, h⟩ | ⟨rfl, hterm, h⟩
    · exact .inl (congrArg Prod.snd h)
    · exact .inl (congrArg Prod.snd h)
    · rw [h]
      exact .inr (.noop term commandId hterm)

end ShardStateMachine

end Machine

end DtgProxy.Shard

import DtgProxy.Shard.Runs

/-! # Restarting a replica

A machine opened on the store of a running one has its index, its prepared
transactions and its closed timestamp.  Only the stores staged for a migration
are not durable, so the two answer every further event alike up to a cutover to
a store that was staged before the restart.
-/
namespace DtgProxy.Shard

open Kernel Lib Storage ReplicaStore OrderedMap ShardStateMachine

/-! ## The closed timestamp record -/

/-- The store records the closed timestamp and no later one. -/
structure RecordsClosed (store : ReplicaStore) (closed : Option TransactionTime) : Prop where
  recorded : store.replicaMetadata ReservedKey.closedTimestamp.name =
    closed.map closedTimestampMetadata
  reached : ∀ batch ∈ store.log, ∀ time,
    batch.mutations = [.putReplicaMetadata (closedTimestampMetadata time)] →
      ∃ current ∈ closed, time ≤ current

theorem toNat_closedTimestamp (time : TransactionTime) :
    (Int64.ofNat time.get).toUInt64.toNat = time.get := by
  have hrange := time.inRange
  exact UInt64.toNat_ofNat_of_lt' (by change _ < 2 ^ 64; omega)

theorem closedTimestampMetadata_injective : Function.Injective closedTimestampMetadata := by
  intro time time' h
  have hvalue := Value.integer.inj (congrArg ReplicaMetadata.value h)
  apply TransactionTime.ext
  rw [← toNat_closedTimestamp time, hvalue, toNat_closedTimestamp]

namespace RecordsClosed

variable {store : ReplicaStore} {closed : Option TransactionTime}

theorem of_log {store' : ReplicaStore} (h : RecordsClosed store closed)
    (hlog : store'.log = store.log) : RecordsClosed store' closed := by
  refine ⟨?_, ?_⟩
  · unfold replicaMetadata mutations
    rw [hlog]
    exact h.recorded
  · rw [hlog]
    exact h.reached

theorem lastMetadata_closing (time : TransactionTime) :
    lastMetadata ReservedKey.closedTimestamp.name
      [.putReplicaMetadata (closedTimestampMetadata time)] = some (closedTimestampMetadata time) := by
  rw [lastMetadata_cons, lastMetadata_nil, Option.none_or]
  exact if_pos rfl

theorem push (h : RecordsClosed store closed) {batch : StoredBatch}
    (hbatch : lastMetadata ReservedKey.closedTimestamp.name batch.mutations = none) :
    RecordsClosed (store.push batch) closed := by
  refine ⟨?_, ?_⟩
  · rw [replicaMetadata_push, hbatch, Option.none_or]
    exact h.recorded
  · intro other hmem time htime
    rcases List.mem_append.mp hmem with hold | hnew
    · exact h.reached other hold time htime
    · rw [List.mem_singleton.mp hnew] at htime
      rw [htime, lastMetadata_closing] at hbatch
      cases hbatch

theorem push_closing (h : RecordsClosed store closed) {term : ℕ} {commandId : CommandId}
    {time : TransactionTime} (hlater : ∀ current ∈ closed, current ≤ time) :
    RecordsClosed (store.push
      ⟨term, commandId, [.putReplicaMetadata (closedTimestampMetadata time)]⟩) (some time) := by
  refine ⟨?_, ?_⟩
  · rw [replicaMetadata_push, lastMetadata_closing]
    rfl
  · intro other hmem earlier hearlier
    refine ⟨time, rfl, ?_⟩
    rcases List.mem_append.mp hmem with hold | hnew
    · obtain ⟨current, hcurrent, hle⟩ := h.reached other hold earlier hearlier
      exact hle.trans (hlater current hcurrent)
    · rw [List.mem_singleton.mp hnew] at hearlier
      simp only [List.cons.injEq, LogicalMutation.putReplicaMetadata.injEq, and_true] at hearlier
      exact (closedTimestampMetadata_injective hearlier).ge

theorem load (h : RecordsClosed store closed) : loadClosedTimestamp store = .ok closed := by
  unfold loadClosedTimestamp
  rw [show store.replicaMetadata closedTimestampMetadataName = _ from h.recorded]
  cases closed with
  | none => rfl
  | some =>
    simp only [Option.map_some, closedTimestampMetadata, toNat_closedTimestamp,
      TransactionTime.new_get]

end RecordsClosed

section Machine

variable [Blake3] {command : MigrationCommand} {entries : List Entry}

namespace ShardStateMachine

variable {events : List Event}

/-- The mutations of a delivered command have the digest of a stored batch only
if they are that batch's. -/
def DigestsDistinct (deliveries : List Delivery) (log : List StoredBatch) : Prop :=
  ∀ delivery ∈ deliveries, ∀ batch ∈ log,
    digestMutations batch.mutations = digestMutations delivery.1.2.2.mutations →
      batch.mutations = delivery.1.2.2.mutations

variable {machine : ShardStateMachine}

theorem recordsClosed_settle (h : RecordsClosed machine.stateStore machine.closedTimestamp)
    {term : ℕ} {command : ShardCommand} {transition : IntentTransition}
    {records : List LogicalMutation} (hvalid : machine.Valid command)
    (haccepts : machine.Accepts command transition)
    (hrecords : machine.recordsOf command transition = .ok records) :
    RecordsClosed (machine.settle term command transition records).stateStore
      (machine.settle term command transition records).closedTimestamp := by
  by_cases hown : command.ownKey = some .closedTimestamp
  · cases haccepts <;> try cases hown
    cases hrecords
    exact h.push_closing (hvalid.closed _ rfl).1
  · have hclosed : machine.nextClosedTimestamp command = machine.closedTimestamp := by
      cases command <;> first | rfl | exact absurd rfl hown
    have hnone : lastMetadata ReservedKey.closedTimestamp.name records = none := by
      apply lastMetadata_eq_none
      intro metadata hmem heq
      obtain ⟨key, other, hdecides, hname, hmetadata⟩ := (recordsOf_metadata hrecords).2 _ hmem
      cases hmetadata
      rw [ReservedKey.name_injective (hname.symm.trans heq)] at hdecides
      cases hdecides
    have hbatch : lastMetadata ReservedKey.closedTimestamp.name
        (persisted command transition records) = none := by
      rw [persisted, lastMetadata_append, hnone, Option.none_or]
      split_ifs
      · rfl
      · exact command.lastMetadata_of_ownKey_ne hown
    change RecordsClosed _ (machine.nextClosedTimestamp command)
    rw [hclosed]
    exact h.push hbatch

theorem Step.recordsClosed {deliveries : List Delivery} {machine' : ShardStateMachine}
    (h : machine.Step deliveries machine')
    (hclosed : RecordsClosed machine.stateStore machine.closedTimestamp)
    (hdistinct : DigestsDistinct deliveries machine.stateStore.log) :
    RecordsClosed machine'.stateStore machine'.closedTimestamp := by
  cases h with
  | redelivered | staged => exact hclosed
  | closedAgain term index command outcome hreplayed hle hvalid hsame =>
    -- the stored batch is this command's, so its time was reached already
    obtain ⟨stored, hstored, -, -, hdigest⟩ := hsame
    have hmem := mem_log_of_batchAt hstored
    have heq := hdistinct _ (List.mem_singleton_self _) stored hmem hdigest
    obtain ⟨current, hcurrent, hle⟩ := hclosed.reached stored hmem command.closedTimestamp heq
    have hge := (hvalid.closed command rfl).1 current hcurrent
    rw [le_antisymm hge hle] at hcurrent
    rw [hcurrent] at hclosed
    exact hclosed
  | noop term commandId hterm =>
    exact hclosed.push (lastMetadata_record .raftNoop rfl (by simp))
  | rejected term command rejection hterm =>
    exact hclosed.push (lastMetadata_record .raftRejection rfl (by simp))
  | accepted term command transition records hterm hvalid hstays haccepts hrecords hne =>
    exact recordsClosed_settle hclosed hvalid haccepts hrecords
  | cutover term command generation target hterm hvalid hcut htarget hcopy =>
    exact (hclosed.of_log hcopy).push
      ((ShardCommand.migration command).lastMetadata_of_ownKey_ne (by simp [ShardCommand.ownKey]))

/-- In a run without digest collisions the store records the closed timestamp. -/
theorem run_recordsClosed (binding : ReplicaBinding) (h : (empty binding).AdmitsAll events)
    (hdistinct : DigestsDistinct ((empty binding).run events).1
      ((empty binding).run events).2.stateStore.log) :
    RecordsClosed ((empty binding).run events).2.stateStore
      ((empty binding).run events).2.closedTimestamp := by
  refine (run_invariant (fun past machine => DigestsDistinct past machine.stateStore.log →
    RecordsClosed machine.stateStore machine.closedTimestamp) binding ?_ ?_ h).1 hdistinct
  · intro _
    exact ⟨rfl, fun batch hbatch => nomatch hbatch⟩
  · intro past machine deliveries machine' _ ih hstep hall
    have hlog := hstep.log_prefix
    have hbefore : ∀ delivery ∈ past ++ deliveries, ∀ batch ∈ machine.stateStore.log, _ :=
      fun delivery hdelivery batch hbatch => hall delivery hdelivery batch (hlog.subset hbatch)
    exact hstep.recordsClosed
      (ih fun delivery hdelivery => hbefore delivery (List.mem_append_left _ hdelivery))
      fun delivery hdelivery => hbefore delivery (List.mem_append_right _ hdelivery)

def restage (machine : ShardStateMachine) (stores : OrderedMap BackendGeneration ReplicaStore) :
    ShardStateMachine :=
  { machine with migrationStateStores := stores }

section

variable (machine : ShardStateMachine) (stores : OrderedMap BackendGeneration ReplicaStore)

omit [Blake3] in
@[simp] theorem restage_binding : (machine.restage stores).binding = machine.binding := rfl

omit [Blake3] in
@[simp] theorem restage_stateStore : (machine.restage stores).stateStore = machine.stateStore := rfl

omit [Blake3] in
@[simp] theorem restage_appliedIndex :
    (machine.restage stores).appliedIndex = machine.appliedIndex := rfl

end

/-- A sound machine's store opens as that machine, without its staged stores. -/
theorem Sound.new_eq (hm : machine.Sound)
    (hclosed : RecordsClosed machine.stateStore machine.closedTimestamp) :
    new machine.binding machine.stateStore = .ok (machine.restage ∅) := by
  have hactive : rebuildActiveIntents machine.binding machine.stateStore
      machine.stateStore.appliedIndex = .ok machine.activeIntents := by
    rw [← hm.applied]
    exact rebuildActiveIntents_eq hm.room hm.listed hm.keyed
  rw [new, if_neg (not_not.mpr hm.bound.symm), hactive]
  simp only [bind, Except.bind, hclosed.load, ← hm.applied]
  rfl

def answer (machine : ShardStateMachine) : Event → Except ShardError (List ApplyOutcome)
  | .apply term index command => (machine.applyEach [(term, index, command)]).1
  | .applyBatch supportsAtomicBatchApply entries =>
    (machine.applyCommittedBatch supportsAtomicBatchApply entries).1
  | .noop term index => (machine.applyRaftNoop term index).1.map ([·])
  | .failed term index command fault =>
    (machine.applyCommitted term index command (some fault)).1.map ([·])
  | .stage _ | .sync _ _ => .ok []

def answers (machine : ShardStateMachine) : List Event → List (Except ShardError (List ApplyOutcome))
  | [] => []
  | event :: events => machine.answer event :: (machine.step event).2.answers events

/-! ## Machines that differ in staged stores -/

/-- A function that treats staged stores as a frame. -/
def Frames {α : Type} (run : ShardStateMachine → α × ShardStateMachine) : Prop :=
  ∀ machine stores, run (machine.restage stores) = ((run machine).1, (run machine).2.restage stores)

variable (term index : ℕ) (fault : Option StorageError)

theorem frames_applyRecord (commandId : CommandId) (metadata : ReplicaMetadata)
    (rejection : Option ApplyRejection) :
    Frames (·.applyRecord term index commandId metadata rejection fault) := by
  intro machine stores
  unfold applyRecord
  beta_reduce
  rw [restage_binding, restage_stateStore]
  cases writeBatch machine.binding machine.stateStore term index commandId
    [.putReplicaMetadata metadata] fault <;> rfl

theorem frames_reject (command : ShardCommand) (error : ShardError) :
    Frames (·.reject term index command error fault) := by
  intro machine stores
  unfold reject
  cases committedRejection error with
  | none => rfl
  | some => exact frames_applyRecord _ _ _ _ _ _ machine stores

theorem frames_applyAccepted (command : ShardCommand)
    (transition : IntentTransition) :
    Frames (·.applyAccepted term index command transition fault) := by
  intro machine stores
  have hrecords : (machine.restage stores).recordsOf command transition =
      machine.recordsOf command transition := rfl
  unfold applyAccepted
  beta_reduce
  rw [hrecords]
  cases machine.recordsOf command transition with
  | error => rfl
  | ok =>
    simp only
    have hreplay : (machine.restage stores).logicalReplay index transition =
      machine.logicalReplay index transition := rfl
    rw [hreplay, restage_binding, restage_stateStore]
    cases writeBatch machine.binding machine.stateStore term index command.header.commandId _ fault
      <;> rfl

theorem frames_replayOldTransactionCommand (command : ShardCommand) :
    Frames (·.replayOldTransactionCommand term index command fault) := by
  intro machine stores
  unfold replayOldTransactionCommand
  simp only [restage]
  split
  · rfl
  · split_ifs <;> rfl

theorem frames_applyValidated (command : ShardCommand) :
    Frames (·.applyValidated term index command fault) := by
  intro machine stores
  have haccept : (machine.restage stores).validateTransactionAcceptance command =
      machine.validateTransactionAcceptance command := rfl
  unfold applyValidated
  beta_reduce
  rw [haccept, restage_appliedIndex]
  split_ifs
  · exact frames_replayOldTransactionCommand term index fault command machine stores
  · cases machine.validateTransactionAcceptance command with
    | error error => exact frames_reject term index fault command error machine stores
    | ok transition => exact frames_applyAccepted term index fault command transition machine stores

/-- Machines that agree up to stores staged for some generations. -/
def Twins (lost : BackendGeneration → Prop) (machine twin : ShardStateMachine) : Prop :=
  ∃ stores, twin = machine.restage stores ∧
    ∀ generation, ¬ lost generation →
      stores[generation]? = machine.migrationStateStores[generation]?

/-- Machines that give one answer and are twins after it. -/
def AnswerAlike {α : Type} (lost : BackendGeneration → Prop)
    (run : ShardStateMachine → α × ShardStateMachine) (machine twin : ShardStateMachine) : Prop :=
  (run twin).1 = (run machine).1 ∧ Twins lost (run machine).2 (run twin).2

variable {lost : BackendGeneration → Prop} {twin : ShardStateMachine}

omit [Blake3] in
/-- Twins stay twins under a function that treats staged stores as a frame. -/
theorem Twins.frame {α : Type} {run : ShardStateMachine → α × ShardStateMachine}
    (hrun : Frames run) (h : Twins lost machine twin) : AnswerAlike lost run machine twin := by
  obtain ⟨stores, rfl, hagree⟩ := h
  have hstaged := hrun machine machine.migrationStateStores
  rw [AnswerAlike, hrun machine stores]
  refine ⟨rfl, stores, rfl, ?_⟩
  rw [show run machine = _ from hstaged]
  exact hagree

/-- A command that cuts over does so to a generation that is not lost. -/
def Reaches (lost : BackendGeneration → Prop) (machine : ShardStateMachine) (_index : ℕ) :
    ShardCommand → Prop
  | .migration command => machine.cutsOver (.migration command) = true →
    ∀ context ∈ command.online, ¬ lost context.targetGeneration
  | _ => True

omit [Blake3] in
theorem Twins.cutoverTarget (h : Twins lost machine twin)
    (hreaches : ∀ context ∈ command.online, ¬ lost context.targetGeneration) :
    twin.cutoverTarget command = machine.cutoverTarget command := by
  obtain ⟨stores, rfl, hagree⟩ := h
  unfold cutoverTarget
  cases honline : command.online with
  | none => rfl
  | some context =>
    have hsame := hagree context.targetGeneration (hreaches context honline)
    simp only [restage, hsame]
    rfl

theorem Twins.applyMigrationCutover (h : Twins lost machine twin)
    (hreaches : ∀ context ∈ command.online, ¬ lost context.targetGeneration) :
    AnswerAlike lost (·.applyMigrationCutover term index command fault) machine twin := by
  have htarget := h.cutoverTarget hreaches
  obtain ⟨stores, rfl, hagree⟩ := h
  unfold AnswerAlike applyMigrationCutover
  beta_reduce
  rw [htarget]
  cases machine.cutoverTarget command with
  | error => exact ⟨rfl, stores, rfl, hagree⟩
  | ok found =>
    obtain ⟨generation, target⟩ := found
    simp only
    cases writeBatch target.binding target term index command.header.commandId
        (ShardCommand.migration command).mutations fault with
    | error => exact ⟨rfl, stores, rfl, hagree⟩
    | ok written =>
      obtain ⟨receipt, target'⟩ := written
      simp only
      cases rebuildActiveIntents target.binding target' receipt.raftIndex with
      | error =>
        refine ⟨rfl, stores.insert generation target', rfl, ?_⟩
        intro other hother
        rw [lookup_insert, lookup_insert, hagree other hother]
      | ok =>
        refine ⟨rfl, stores.erase generation, rfl, ?_⟩
        intro other hother
        rw [lookup_erase, lookup_erase, hagree other hother]

theorem Twins.applyCommitted (h : Twins lost machine twin) {command : ShardCommand}
    (hreaches : Reaches lost machine index command) :
    AnswerAlike lost (·.applyCommitted term index command fault) machine twin := by
  have hvalid := h.frame (frames_applyValidated term index fault command)
  have hcheck : twin.validateCommand command = machine.validateCommand command := by
    obtain ⟨stores, rfl, -⟩ := h
    rfl
  unfold AnswerAlike ShardStateMachine.applyCommitted
  beta_reduce
  rw [hcheck]
  cases machine.validateCommand command with
  | error error => exact h.frame (frames_reject term index fault command error)
  | ok =>
    cases command with
    | migration command =>
      have hcut : twin.cutsOver (.migration command) = machine.cutsOver (.migration command) := by
        obtain ⟨stores, rfl, -⟩ := h
        rfl
      simp only [hcut]
      split_ifs with hcuts
      · exact h.applyMigrationCutover term index fault (hreaches hcuts)
      · exact hvalid
    | _ => exact hvalid

theorem Twins.applyEach (h : Twins lost machine twin)
    (hreaches : machine.Along (Reaches lost) entries) :
    AnswerAlike lost (·.applyEach entries) machine twin := by
  induction entries generalizing machine twin with
  | nil => exact ⟨rfl, h⟩
  | cons entry entries ih =>
    obtain ⟨term, index, command⟩ := entry
    obtain ⟨hanswer, hnext⟩ := h.applyCommitted term index none hreaches.1
    unfold AnswerAlike applyEach
    beta_reduce
    replace hreaches := hreaches.2
    rcases hm : machine.applyCommitted term index command with ⟨result, machine'⟩
    rcases ht : twin.applyCommitted term index command with ⟨result', twin'⟩
    simp only [hm, ht] at hanswer hnext hreaches
    cases hanswer
    cases result with
    | error => exact ⟨rfl, hnext⟩
    | ok =>
      obtain ⟨hrest, hlast⟩ := ih hnext hreaches
      simp only
      rcases hm' : machine'.applyEach entries with ⟨rest, last⟩
      rcases ht' : twin'.applyEach entries with ⟨rest', last'⟩
      simp only [hm', ht'] at hrest hlast
      cases hrest
      cases rest <;> exact ⟨rfl, hlast⟩

theorem frames_applyCollected (entries : List Entry) (batches : List CommittedShardBatch) :
    Frames (·.applyCollected entries batches) := by
  intro machine stores
  unfold applyCollected
  beta_reduce
  rw [restage_stateStore]
  cases machine.stateStore.applyBatches batches with
  | error => rfl
  | ok =>
    simp only
    split_ifs <;> rfl

theorem Twins.collectTransactions (h : Twins lost machine twin) (scan : BatchScan)
    (entries : List Entry) :
    twin.collectTransactions scan entries = machine.collectTransactions scan entries := by
  obtain ⟨stores, rfl, -⟩ := h
  induction entries generalizing scan with
  | nil => rfl
  | cons entry entries ih =>
    obtain ⟨term, index, command⟩ := entry
    cases command with
    | commitSingleShardTransaction =>
      unfold collectTransactions
      simp only [ih]
      rfl
    | _ => rfl

theorem Twins.applyCommittedBatch (h : Twins lost machine twin) (supportsAtomicBatchApply : Bool)
    (hreaches : machine.Along (Reaches lost) entries) :
    AnswerAlike lost (·.applyCommittedBatch supportsAtomicBatchApply entries) machine twin := by
  have heach := h.applyEach hreaches
  have happlied : twin.appliedIndex = machine.appliedIndex := by
    obtain ⟨stores, rfl, -⟩ := h
    rfl
  unfold AnswerAlike ShardStateMachine.applyCommittedBatch
  beta_reduce
  rw [happlied, h.collectTransactions]
  split_ifs
  · exact heach
  · cases machine.collectTransactions ⟨machine.appliedIndex + 1, [], ∅, []⟩ entries with
    | error => exact ⟨rfl, h⟩
    | ok found =>
      cases found with
      | none => exact heach
      | some batches => exact h.frame (frames_applyCollected entries batches)

theorem frames_applyRaftNoop : Frames (·.applyRaftNoop term index) := by
  intro machine stores
  unfold applyRaftNoop
  cases noopCommandId term index with
  | none => rfl
  | some => exact frames_applyRecord _ _ none _ _ _ machine stores

omit [Blake3] in
theorem Twins.stage (h : Twins lost machine twin) (store : ReplicaStore) :
    Twins lost (machine.stageMigrationStateStore store).2
      (twin.stageMigrationStateStore store).2 := by
  obtain ⟨stores, rfl, hagree⟩ := h
  let generation := store.binding.backendGeneration
  have hstaged : Twins lost (machine.restage (machine.migrationStateStores.insert generation store))
      (machine.restage (stores.insert generation store)) := by
    refine ⟨_, rfl, fun other hother => ?_⟩
    change _ = (machine.migrationStateStores.insert generation store)[other]?
    rw [lookup_insert, lookup_insert, hagree other hother]
  unfold stageMigrationStateStore
  rw [restage_binding, restage_appliedIndex]
  split_ifs
  · exact ⟨stores, rfl, hagree⟩
  all_goals exact hstaged

omit [Blake3] in
theorem Twins.sync (h : Twins lost machine twin) (generation : BackendGeneration)
    (log : List StoredBatch) :
    Twins lost (machine.syncStaged generation log) (twin.syncStaged generation log) := by
  obtain ⟨stores, rfl, hagree⟩ := h
  have hsynced : ∀ other, ¬ lost other →
      ((machine.restage stores).syncStaged generation log).migrationStateStores[other]? =
        (machine.syncStaged generation log).migrationStateStores[other]? := by
    intro other hother
    have hsame := hagree other hother
    unfold syncStaged
    simp only [restage]
    by_cases hgeneration : generation = other
    · subst hgeneration
      rw [hsame]
      cases hstaged : machine.migrationStateStores[generation]? with
      | none => exact hsame
      | some => simp only [lookup_insert_self]
    · split <;> split <;>
        simp only [lookup_insert, if_neg hgeneration, hsame]
  refine ⟨((machine.restage stores).syncStaged generation log).migrationStateStores, ?_, hsynced⟩
  unfold syncStaged
  split <;> split <;> rfl

theorem Twins.step (h : Twins lost machine twin) {event : Event}
    (hreaches : machine.Along (Reaches lost) (entriesOf event)) :
    twin.answer event = machine.answer event ∧
      Twins lost (machine.step event).2 (twin.step event).2 := by
  cases event with
  | apply =>
    obtain ⟨hanswer, hnext⟩ := h.applyEach hreaches
    rw [deliverEach_snd, deliverEach_snd] at hnext
    exact ⟨hanswer, hnext⟩
  | applyBatch supportsAtomicBatchApply =>
    obtain ⟨hanswer, hnext⟩ := h.applyCommittedBatch supportsAtomicBatchApply hreaches
    rw [deliverBatch_snd, deliverBatch_snd] at hnext
    exact ⟨hanswer, hnext⟩
  | noop term index =>
    obtain ⟨hanswer, hnext⟩ := h.frame (frames_applyRaftNoop term index)
    exact ⟨congrArg (Except.map ([·])) hanswer, hnext⟩
  | failed term index command fault =>
    obtain ⟨hanswer, hnext⟩ := h.applyCommitted term index (some fault) hreaches.1
    exact ⟨congrArg (Except.map ([·])) hanswer, hnext⟩
  | stage store => exact ⟨rfl, h.stage store⟩
  | sync generation log => exact ⟨rfl, h.sync generation log⟩

theorem Twins.run (h : Twins lost machine twin)
    (hreaches : machine.Throughout (Reaches lost) events) :
    twin.answers events = machine.answers events ∧
      Twins lost (machine.run events).2 (twin.run events).2 := by
  induction events generalizing machine twin with
  | nil => exact ⟨rfl, h⟩
  | cons event events ih =>
    obtain ⟨hanswer, hnext⟩ := h.step hreaches.1
    obtain ⟨hrest, hlast⟩ := ih hnext hreaches.2
    rw [answers, answers, hanswer, hrest]
    exact ⟨rfl, hlast⟩

/-- Without migration commands nothing depends on staged stores. -/
theorem reaches_of_plain (machine : ShardStateMachine) (h : isPlainRun events = true) :
    machine.Throughout (Reaches lost) events := by
  refine throughout_of_plain ?_ machine h
  intro machine index command hplain
  cases command with
  | migration => cases hplain
  | _ => trivial

/-- A machine opened on the store of a running one, which has cut over to copies of its
log only, holds the same index, prepared transactions and closed timestamp, and answers
every further run alike, as long as no command cuts over to a store that was staged
before. -/
theorem restart_equivalent (binding : ReplicaBinding) {events : List Event}
    (h : (empty binding).AdmitsAll events)
    (hdistinct : DigestsDistinct ((empty binding).run events).1
      ((empty binding).run events).2.stateStore.log) :
    let machine := ((empty binding).run events).2
    ∃ restarted, ShardStateMachine.new machine.binding machine.stateStore = .ok restarted ∧
      restarted.appliedIndex = machine.appliedIndex ∧
      restarted.activeIntents = machine.activeIntents ∧
      restarted.closedTimestamp = machine.closedTimestamp ∧
      ∀ more : List Event,
        machine.Throughout (Reaches fun generation => generation ∈ machine.migrationStateStores)
          more →
        restarted.answers more = machine.answers more ∧
          (restarted.run more).2.stateStore = (machine.run more).2.stateStore := by
  have hsound := ((empty_sound binding).run_steps h).sound (empty_sound binding)
  have hnew := hsound.new_eq (run_recordsClosed binding h hdistinct)
  generalize ((empty binding).run events).2 = machine at hnew
  refine ⟨_, hnew, rfl, rfl, rfl, ?_⟩
  intro more hreaches
  have htwins : Twins (fun generation => generation ∈ machine.migrationStateStores) machine
      (machine.restage ∅) := by
    refine ⟨∅, rfl, ?_⟩
    intro generation habsent
    rw [Std.ExtTreeMap.getElem?_eq_none habsent]
    rfl
  obtain ⟨hanswers, stores, hlast, -⟩ := htwins.run hreaches
  rw [hlast]
  exact ⟨hanswers, rfl⟩

end ShardStateMachine

end Machine

/-! ## Sample restarts -/

/-- A closed timestamp, delivered and delivered again. -/
def sampleClosing : letI := foldHash; List Event :=
  letI := foldHash
  let closing : ShardCommand := .advanceClosedTimestamp ⟨sampleHeader 1, 5⟩
  [.apply 1 1 closing, .apply 1 1 closing]

def sampleTarget : ReplicaBinding :=
  { sampleBinding with
    placementEpoch := 2
    backendGeneration := 2
    backendClassDigest := sampleDigest
    providerKind := .kuzu
    namespaceId := "target" }

/-- A no-op, and a store staged for that placement. -/
def sampleStaging : letI := foldHash; List Event :=
  letI := foldHash
  [.noop 1 1, .stage ⟨sampleTarget,
    ((ShardStateMachine.empty sampleBinding).run [.noop 1 1]).2.stateStore.log⟩]

/-- The cutover to that placement at the first index. -/
def sampleActivation : MigrationCommand :=
  Result.value (MigrationCommand.ofContext 2 1 1 1 1 2
    sampleTarget.backendClassDigest 1 1 sampleTarget.backendClassDigest .activate)
    (by decide +kernel)

/-- The staged store is no copy: it has closed a timestamp. -/
def foreignStaging : letI := foldHash; List Event :=
  letI := foldHash
  [.noop 1 1, .stage ⟨sampleTarget, [⟨1, 1, [.putReplicaMetadata (closedTimestampMetadata 10)]⟩]⟩,
    .apply 1 2 (.migration sampleActivation)]

namespace ShardStateMachine

/-- After closing a timestamp twice, a restarted replica answers like the running one. -/
theorem sampleClosing_restart :
    letI := foldHash
    ((empty sampleBinding).run sampleClosing).2.closedTimestamp = some 5 ∧
      ∃ restarted, ShardStateMachine.new ((empty sampleBinding).run sampleClosing).2.binding
          ((empty sampleBinding).run sampleClosing).2.stateStore = .ok restarted ∧
        restarted.closedTimestamp = some 5 ∧
        restarted.answers sampleClosing =
          ((empty sampleBinding).run sampleClosing).2.answers sampleClosing := by
  have hclosed : (@run foldHash (empty sampleBinding) sampleClosing).2.closedTimestamp =
      some 5 := by decide +kernel
  have hplain : @isPlainRun foldHash sampleClosing = true := by decide +kernel
  have hdistinct : @DigestsDistinct foldHash (@run foldHash (empty sampleBinding) sampleClosing).1
      (@run foldHash (empty sampleBinding) sampleClosing).2.stateStore.log := by
    unfold DigestsDistinct
    decide +kernel
  obtain ⟨restarted, hnew, -, -, hsame, hmore⟩ := @restart_equivalent foldHash sampleBinding _
    (@admitsAll_of_plain foldHash _ _ hplain) hdistinct
  exact ⟨hclosed, restarted, hnew, hsame.trans hclosed,
    (hmore sampleClosing (@reaches_of_plain foldHash _ _ _ hplain)).1⟩

/-- A store staged before a restart is lost: the running replica cuts over to it and the
restarted one refuses.  A replica that has moved to a store with another log keeps its
own closed timestamp, while the restarted one reads the store's. -/
theorem restart_differs_after_staging :
    letI := foldHash
    (let machine := ((empty sampleBinding).run sampleStaging).2
      ∃ restarted, ShardStateMachine.new machine.binding machine.stateStore = .ok restarted ∧
        (machine.answer (.apply 1 2 (.migration sampleActivation))).isOk = true ∧
        (restarted.answer (.apply 1 2 (.migration sampleActivation))).isOk = false) ∧
      let moved := ((empty sampleBinding).run foreignStaging).2
      moved.binding = sampleTarget ∧ moved.closedTimestamp = none ∧
        (ShardStateMachine.new moved.binding moved.stateStore).toOption.bind (·.closedTimestamp) =
          some 10 := by
  refine ⟨⟨(@run foldHash (empty sampleBinding) sampleStaging).2.restage ∅, ?_, ?_, ?_⟩, ?_⟩
  · rfl
  all_goals decide +kernel

end ShardStateMachine

end DtgProxy.Shard

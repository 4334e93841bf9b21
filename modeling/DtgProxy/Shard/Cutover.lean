import DtgProxy.Shard.IntentLifecycle
import DtgProxy.Shard.Restart

/-! # Cutover and fencing

Nothing is assumed here about the machine, the stores staged for it or the index of
an entry, and a store may fail a write.  A cutover leaves the machine where it was or
moves it to a staged store under a later epoch and generation.  From then on no
command with the fences it has left changes the graph.
-/
namespace DtgProxy.Shard

open Kernel Lib Storage

def fencesOf (binding : ReplicaBinding) : PlacementEpoch × BackendGeneration :=
  (binding.placementEpoch, binding.backendGeneration)

def CommandHeader.fences (header : CommandHeader) : PlacementEpoch × BackendGeneration :=
  (header.placementEpoch, header.backendGeneration)

/-- Both fences have moved on. -/
def Later (first last : PlacementEpoch × BackendGeneration) : Prop :=
  first.1 < last.1 ∧ first.2 < last.2

theorem KeepsGraph.graphMutations_eq {store store' : ReplicaStore} (h : KeepsGraph store store') :
    graphMutations store'.mutations = graphMutations store.mutations := by
  rcases h with rfl | ⟨term, commandId, metadata, rfl⟩
  · rfl
  · rw [ReplicaStore.mutations_push, graphMutations_append]
    exact List.append_nil _

/-- A consistent context moves to the next generation. -/
theorem OnlineMigrationContext.source_lt_target {context : OnlineMigrationContext}
    {phase : MigrationPhase} {fences : PlacementEpoch × BackendGeneration}
    (h : context.fence phase = .ok fences) :
    context.sourceGeneration < context.targetGeneration := by
  unfold fence at h
  split at h
  · cases h
  split at h
  · cases h
  · rename_i next hnext
    have hget : next.get = context.sourceGeneration.get + 1 := by
      unfold Identifier.new at hnext
      split_ifs at hnext
      cases hnext
      rfl
    have hlt : context.sourceGeneration < next := by
      change context.sourceGeneration.get < next.get
      omega
    split_ifs at h with hbad
    all_goals
      push Not at hbad
      rwa [hbad.2.1]

section Machine

variable [Blake3] {deliveries : List Delivery} {target : ReplicaStore}

namespace ShardStateMachine

variable {machine : ShardStateMachine} {term index : ℕ} {command : ShardCommand}
  {fault : Option StorageError}

/-- The answer of a command that was applied and is no replay. -/
def takesEffect (delivery : Delivery) : Bool :=
  !delivery.2.replayed && delivery.2.rejection.isNone

/-! ## The fences of a command -/

theorem cutsOver_fences (hcut : machine.cutsOver command = true) :
    Later (fencesOf machine.binding) command.header.fences := by
  cases command with
  | migration command =>
    simp only [cutsOver, MigrationCommand.cutsOverFrom, Bool.and_eq_true, Option.any_eq_true,
      decide_eq_true_eq] at hcut
    obtain ⟨-, context, honline, ⟨⟨-, hgeneration⟩, hepoch⟩, hheader⟩ := hcut
    constructor
    · have hnonzero := command.header.placementEpoch.nonzero
      change machine.binding.placementEpoch.get < command.header.placementEpoch.get
      split_ifs at hepoch
      · omega
      · exact absurd hepoch hnonzero
    · change machine.binding.backendGeneration < command.header.backendGeneration
      rw [← hgeneration, hheader]
      exact OnlineMigrationContext.source_lt_target (command.fenced context honline)
  | _ => cases hcut

theorem fences_of_valid (h : machine.validateCommand command = .ok ()) :
    fencesOf machine.binding ≤ command.header.fences := by
  cases hcut : machine.cutsOver command with
  | true => exact (cutsOver_fences hcut).imp le_of_lt le_of_lt
  | false =>
    obtain ⟨hepoch, hgeneration⟩ := (validateCommand_eq_ok.mp h).placed hcut
    exact ⟨hepoch.ge, hgeneration.ge⟩

/-- A command whose fences the machine has left is refused. -/
theorem uncommitted_of_left (h : ¬ fencesOf machine.binding ≤ command.header.fences) (term index : ℕ)
    (fault : Option StorageError) :
    Uncommitted machine.stateStore (machine.applyCommitted term index command fault) := by
  unfold applyCommitted
  cases hcheck : machine.validateCommand command with
  | error error => exact uncommitted_reject machine term index command error fault
  | ok => exact absurd (fences_of_valid hcheck) h

theorem fences_of_takesEffect {outcome : ApplyOutcome}
    (happly : (machine.applyCommitted term index command fault).1 = .ok outcome)
    (heffect : takesEffect ((term, index, command), outcome) = true) :
    fencesOf machine.binding ≤ command.header.fences := by
  by_contra hleft
  simp only [takesEffect, Bool.and_eq_true, Bool.not_eq_true', Option.isNone_iff_eq_none] at heffect
  have hreplayed := (uncommitted_of_left hleft term index fault).2 outcome happly heffect.2
  rw [heffect.1] at hreplayed
  cases hreplayed

/-! ## One cutover -/

/-- Where a cutover leaves the machine: it moves to the store that was staged for the
generation of the command.  The store has taken the entry as its next one, or had it
already. -/
structure MovedTo (machine : ShardStateMachine) (term index : ℕ) (command : MigrationCommand)
    (outcome : ApplyOutcome) (target : ReplicaStore) (machine' : ShardStateMachine) : Prop where
  staged : machine.migrationStateStores[target.binding.backendGeneration]? = some target
  binding : machine'.binding = target.binding
  later : Later (fencesOf machine.binding) (fencesOf target.binding)
  applied : machine'.appliedIndex = index
  closedTimestamp : machine'.closedTimestamp = machine.closedTimestamp
  accepted : outcome.rejection = none
  fresh : outcome.replayed = false → index = target.appliedIndex + 1 ∧
    machine'.stateStore = target.push
      ⟨term, command.header.commandId, (ShardCommand.migration command).mutations⟩
  again : outcome.replayed = true → index ≤ target.appliedIndex ∧ machine'.stateStore = target

/-- A cutover that fails.  The staged store keeps the entry if only its prepared
transactions cannot be restored; the machine is as it was. -/
def Unmoved (machine : ShardStateMachine) (index : ℕ) (command : MigrationCommand)
    (result : Except ShardError ApplyOutcome × ShardStateMachine) : Prop :=
  ∃ error, result = (.error error, machine) ∨
    ∃ generation target written, machine.cutoverTarget command = .ok (generation, target) ∧
      KeepsGraph target written ∧ rebuildActiveIntents target.binding written index = .error error ∧
      result = (.error error,
        machine.restage (machine.migrationStateStores.insert generation written))

theorem applyMigrationCutover_moves {command : MigrationCommand}
    (hcut : machine.cutsOver (.migration command) = true) :
    machine.Unmoved index command (machine.applyMigrationCutover term index command fault) ∨
      ∃ outcome machine' target, machine.applyMigrationCutover term index command fault =
          (.ok outcome, machine') ∧
        machine.MovedTo term index command outcome target machine' := by
  unfold applyMigrationCutover
  cases htarget : machine.cutoverTarget command with
  | error error => exact .inl ⟨error, .inl rfl⟩
  | ok found =>
    obtain ⟨generation, target⟩ := found
    simp only
    cases hwrite : writeBatch target.binding target term index command.header.commandId
        (ShardCommand.migration command).mutations fault with
    | error error => exact .inl ⟨error, .inl rfl⟩
    | ok written =>
      obtain ⟨receipt, written⟩ := written
      obtain ⟨rfl, hwritten⟩ := writeBatch_eq_ok hwrite
      simp only
      cases hrebuild : rebuildActiveIntents target.binding written receipt.raftIndex with
      | error error =>
        refine .inl ⟨error, .inr ⟨generation, target, written, htarget, ?_, hrebuild, rfl⟩⟩
        rcases hwritten with ⟨-, -, rfl⟩ | ⟨-, -, rfl⟩
        · exact .inl rfl
        · exact .inr ⟨_, _, _, rfl⟩
      | ok activeIntents =>
        obtain ⟨hstaged, hepoch, hgeneration, context, honline, htargets, -⟩ :=
          cutoverTarget_eq_ok htarget
        refine .inr ⟨_, _, target, rfl, ⟨hgeneration ▸ hstaged, rfl, ?_, rfl, rfl, rfl, ?_, ?_⟩⟩
        · have hheader : fencesOf target.binding = command.header.fences := by
            simp only [cutsOver, MigrationCommand.cutsOverFrom, Bool.and_eq_true,
              Option.any_eq_true, decide_eq_true_eq] at hcut
            obtain ⟨-, context', honline', -, hheader⟩ := hcut
            cases Option.mem_unique honline honline'
            rw [fencesOf, CommandHeader.fences, hepoch, hgeneration, ← htargets, hheader]
          rw [hheader]
          exact cutsOver_fences hcut
        · intro hfresh
          rcases hwritten with ⟨hreplayed, -⟩ | ⟨-, hnext, hstore⟩
          · cases hreplayed.symm.trans hfresh
          · exact ⟨hnext, hstore⟩
        · intro hagain
          rcases hwritten with ⟨-, hle, hstore⟩ | ⟨hreplayed, -⟩
          · exact ⟨hle, hstore⟩
          · cases hreplayed.symm.trans hagain

/-! ## Fences only move on -/

theorem binding_applyRecord (machine : ShardStateMachine) (term index : ℕ) (commandId : CommandId)
    (metadata : ReplicaMetadata) (rejection : Option ApplyRejection) (fault : Option StorageError) :
    (machine.applyRecord term index commandId metadata rejection fault).2.binding =
      machine.binding := by
  unfold applyRecord
  split <;> rfl

theorem binding_reject (machine : ShardStateMachine) (error : ShardError) :
    (machine.reject term index command error fault).2.binding = machine.binding := by
  unfold reject
  split
  · exact machine.binding_applyRecord _ _ _ _ _ _
  · rfl

theorem binding_applyValidated (machine : ShardStateMachine) :
    (machine.applyValidated term index command fault).2.binding = machine.binding := by
  unfold applyValidated
  split_ifs
  · unfold replayOldTransactionCommand
    simp only
    split
    · rfl
    · split_ifs <;> rfl
  · split
    · exact machine.binding_reject _
    · unfold applyAccepted
      simp only
      split
      · rfl
      · split <;> rfl

theorem fences_applyCommitted (machine : ShardStateMachine) (term index : ℕ)
    (command : ShardCommand) :
    fencesOf machine.binding ≤
      fencesOf (machine.applyCommitted term index command).2.binding := by
  unfold applyCommitted
  split
  · rw [binding_reject]
  · split
    · split_ifs with hcut
      · rcases @applyMigrationCutover_moves _ machine term index none _ hcut with hfailed | hmoved
        · obtain ⟨error, h | ⟨generation, target, written, -, -, -, h⟩⟩ := hfailed
          · rw [h]
          · rw [h]
            exact le_rfl
        · obtain ⟨outcome, machine', target, h, hmoved⟩ := hmoved
          rw [h, hmoved.binding]
          exact hmoved.later.imp le_of_lt le_of_lt
      · rw [binding_applyValidated]
    · rw [binding_applyValidated]

/-- What entries do to the machine: its fences are not behind the earlier ones, nor
are those of the commands that took effect, and the graph stays as it is if all
commands come too late. -/
structure Advances (machine : ShardStateMachine) (entries : List Entry)
    (result : List Delivery × ShardStateMachine) : Prop where
  binding : fencesOf machine.binding ≤ fencesOf result.2.binding
  effects : ∀ delivery ∈ result.1, takesEffect delivery = true →
    fencesOf machine.binding ≤ delivery.1.2.2.header.fences
  graph : (∀ entry ∈ entries, ¬ fencesOf machine.binding ≤ entry.2.2.header.fences) →
    graphMutations result.2.stateStore.mutations = graphMutations machine.stateStore.mutations

theorem Advances.append {entries entries' : List Entry}
    {result result' : List Delivery × ShardStateMachine} (h : machine.Advances entries result)
    (h' : result.2.Advances entries' result') :
    machine.Advances (entries ++ entries') (result.1 ++ result'.1, result'.2) := by
  refine ⟨h.binding.trans h'.binding, List.forall_mem_append.mpr ⟨h.effects,
    fun delivery hmem heffect => h.binding.trans (h'.effects delivery hmem heffect)⟩, fun hleft => ?_⟩
  obtain ⟨hfirst, hrest⟩ := List.forall_mem_append.mp hleft
  exact (h'.graph fun entry hmem hlate => hrest entry hmem (h.binding.trans hlate)).trans
    (h.graph hfirst)

theorem advances_nil {machine' : ShardStateMachine} (entries : List Entry)
    (hbinding : machine'.binding = machine.binding)
    (hgraph : graphMutations machine'.stateStore.mutations =
      graphMutations machine.stateStore.mutations) : machine.Advances entries ([], machine') :=
  ⟨le_of_eq (congrArg fencesOf hbinding.symm), List.forall_mem_nil _, fun _ => hgraph⟩

theorem advances_deliverEach (machine : ShardStateMachine) (entries : List Entry) :
    machine.Advances entries (machine.deliverEach entries) := by
  induction entries generalizing machine with
  | nil => exact advances_nil [] rfl rfl
  | cons entry entries ih =>
    obtain ⟨term, index, command⟩ := entry
    have hle := machine.fences_applyCommitted term index command
    have hgraph := fun hleft : ¬ fencesOf machine.binding ≤ command.header.fences =>
      (uncommitted_of_left hleft term index none).1.graphMutations_eq
    rw [deliverEach]
    rcases happly : machine.applyCommitted term index command with ⟨result, machine'⟩
    rw [happly] at hle hgraph
    cases result with
    | error =>
      exact ⟨hle, List.forall_mem_nil _, fun hleft => hgraph (hleft _ List.mem_cons_self)⟩
    | ok outcome =>
      have hfirst : machine.Advances [(term, index, command)]
          ([((term, index, command), outcome)], machine') :=
        ⟨hle, List.forall_mem_singleton.mpr (fences_of_takesEffect (congrArg Prod.fst happly)),
          fun hleft => hgraph (hleft _ List.mem_cons_self)⟩
      exact hfirst.append (ih machine')

theorem fresh_of_collectTransactions {entries : List Entry} {scan : BatchScan}
    {batches : List CommittedShardBatch}
    (h : machine.collectTransactions scan entries = .ok (some batches)) :
    ∀ entry ∈ entries, fencesOf machine.binding ≤ entry.2.2.header.fences := by
  induction entries generalizing scan with
  | nil => exact fun _ hmem => nomatch hmem
  | cons entry entries ih =>
    obtain ⟨term, index, command⟩ := entry
    cases command with
    | commitSingleShardTransaction transaction =>
      unfold collectTransactions at h
      split_ifs at h with hplace hold hstale
      all_goals try cases h
      obtain ⟨batch, -, h⟩ := Result.bind_eq_ok.mp h
      refine List.forall_mem_cons.mpr ⟨fences_of_valid ?_, ih h⟩
      cases hcheck : machine.validateCommand (.commitSingleShardTransaction transaction) with
      | ok => rfl
      | error => exact absurd (by simp only [isFreshTransaction, hcheck]) hstale
    | _ => cases h

theorem advances_deliverBatch (machine : ShardStateMachine) (supportsAtomicBatchApply : Bool)
    (entries : List Entry) :
    machine.Advances entries (machine.deliverBatch supportsAtomicBatchApply entries) := by
  have heach := machine.advances_deliverEach entries
  unfold deliverBatch
  split_ifs with hsingle
  · exact heach
  · cases hcollect : machine.collectTransactions ⟨machine.appliedIndex + 1, [], ∅, []⟩ entries with
    | error => exact advances_nil entries rfl rfl
    | ok found =>
      cases found with
      | none => exact heach
      | some batches =>
        have hfresh := fresh_of_collectTransactions hcollect
        -- all entries are valid, and there are some
        have hgraph : ∀ {P : Prop},
            (∀ entry ∈ entries, ¬ fencesOf machine.binding ≤ entry.2.2.header.fences) → P := by
          intro P hleft
          cases entries with
          | nil => exact absurd (.inl (Nat.zero_lt_succ 1)) hsingle
          | cons entry =>
            exact absurd (hfresh entry List.mem_cons_self) (hleft entry List.mem_cons_self)
        have hbinding : (machine.applyCollected entries batches).2.binding = machine.binding := by
          unfold applyCollected
          split
          · rfl
          · split_ifs <;> rfl
        simp only
        generalize machine.applyCollected entries batches = applied at hbinding ⊢
        obtain ⟨result, machine'⟩ := applied
        have hle := le_of_eq (congrArg fencesOf hbinding.symm)
        cases result with
        | error => exact ⟨hle, List.forall_mem_nil _, hgraph⟩
        | ok outcomes =>
          exact ⟨hle, fun delivery hmem _ => hfresh _ (List.of_mem_zip hmem).1, hgraph⟩

theorem advances_step (machine : ShardStateMachine) (event : Event) :
    machine.Advances (entriesOf event) (machine.step event) := by
  cases event with
  | apply => exact machine.advances_deliverEach _
  | applyBatch => exact machine.advances_deliverBatch _ _
  | noop term index =>
    rw [step, applyRaftNoop]
    split
    · exact advances_nil [] rfl rfl
    · exact advances_nil [] (machine.binding_applyRecord _ _ _ _ _ _)
        (keepsGraph_applyRecord machine _ _ _ _ _ _).graphMutations_eq
  | failed term index command fault =>
    obtain ⟨error, hfailed⟩ := machine.applyCommitted_fault term index command fault
    rw [step, hfailed]
    exact advances_nil _ rfl rfl
  | stage store =>
    rw [step, stageMigrationStateStore]
    split_ifs <;> exact advances_nil [] rfl rfl
  | sync generation log =>
    rw [step, syncStaged]
    split <;> exact advances_nil [] rfl rfl

end ShardStateMachine

end Machine

end DtgProxy.Shard

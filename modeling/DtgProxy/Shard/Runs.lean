import DtgProxy.Shard.AtomicBatch

/-! # Runs of a shard

A run delivers entries one by one or in batches, fills leader changes with
no-ops, and stages stores for a migration, whatever they hold.  Every run of a
machine opened on an empty store in which cutovers come in order, and to copies of
its log, is a sequence of steps.
-/
namespace DtgProxy.Shard

open Kernel Lib Storage

section Machine

variable [Blake3]

/-- What can happen to a replica.  Any store may be staged, and whoever holds it may
write to it; `sync` is what it holds then.  The store may fail the write of a
delivery. -/
inductive Event where
  | apply (term index : ℕ) (command : ShardCommand)
  | applyBatch (supportsAtomicBatchApply : Bool) (entries : List ShardStateMachine.Entry)
  | noop (term index : ℕ)
  | failed (term index : ℕ) (command : ShardCommand) (fault : StorageError)
  | stage (store : ReplicaStore)
  | sync (generation : BackendGeneration) (log : List StoredBatch)

namespace ShardStateMachine

variable {machine : ShardStateMachine}
variable {entries : List Entry} {events : List Event}

/-- Entries delivered in turn up to the first error, with the outcomes of those
that were applied. -/
def deliverEach (machine : ShardStateMachine) :
    List Entry → List Delivery × ShardStateMachine
  | [] => ([], machine)
  | (term, index, command) :: rest =>
    match machine.applyCommitted term index command with
    | (.error _, machine') => ([], machine')
    | (.ok outcome, machine') =>
      (((term, index, command), outcome) :: (machine'.deliverEach rest).1,
        (machine'.deliverEach rest).2)

def deliverBatch (machine : ShardStateMachine) (supportsAtomicBatchApply : Bool)
    (entries : List Entry) : List Delivery × ShardStateMachine :=
  if entries.length < 2 ∨ supportsAtomicBatchApply = false then machine.deliverEach entries
  else
    match machine.collectTransactions ⟨machine.appliedIndex + 1, [], ∅, []⟩ entries with
    | .error _ => ([], machine)
    | .ok none => machine.deliverEach entries
    | .ok (some batches) =>
      match machine.applyCollected entries batches with
      | (.error _, machine') => ([], machine')
      | (.ok outcomes, machine') => (entries.zip outcomes, machine')

/-- The staged store of a generation is written to from outside. -/
def syncStaged (machine : ShardStateMachine) (generation : BackendGeneration)
    (log : List StoredBatch) : ShardStateMachine :=
  match machine.migrationStateStores[generation]? with
  | none => machine
  | some target =>
    { machine with
      migrationStateStores :=
        machine.migrationStateStores.insert generation { target with log := log } }

/-- One event, with the deliveries it answers. -/
def step (machine : ShardStateMachine) : Event → List Delivery × ShardStateMachine
  | .apply term index command => machine.deliverEach [(term, index, command)]
  | .applyBatch supportsAtomicBatchApply entries =>
    machine.deliverBatch supportsAtomicBatchApply entries
  | .noop term index => ([], (machine.applyRaftNoop term index).2)
  | .failed term index command fault =>
    ([], (machine.applyCommitted term index command (some fault)).2)
  | .stage store => ([], (machine.stageMigrationStateStore store).2)
  | .sync generation log => ([], machine.syncStaged generation log)

def run (machine : ShardStateMachine) : List Event → List Delivery × ShardStateMachine
  | [] => ([], machine)
  | event :: events =>
    ((machine.step event).1 ++ ((machine.step event).2.run events).1,
      ((machine.step event).2.run events).2)

theorem run_append (machine : ShardStateMachine) (first rest : List Event) :
    machine.run (first ++ rest) =
      ((machine.run first).1 ++ ((machine.run first).2.run rest).1,
        ((machine.run first).2.run rest).2) := by
  induction first generalizing machine with
  | nil => rfl
  | cons event first ih =>
    rw [List.cons_append, run, ih, run, List.append_assoc]

theorem deliverEach_snd (machine : ShardStateMachine) (entries : List Entry) :
    (machine.applyEach entries).2 = (machine.deliverEach entries).2 := by
  induction entries generalizing machine with
  | nil => rfl
  | cons entry entries ih =>
    obtain ⟨term, index, command⟩ := entry
    rw [applyEach, deliverEach]
    rcases machine.applyCommitted term index command with ⟨result, machine'⟩
    cases result with
    | error => rfl
    | ok =>
      have hrest := ih machine'
      simp only
      rw [← hrest]
      rcases machine'.applyEach entries with ⟨rest, last⟩
      cases rest <;> rfl

/-- A batch event is a call of `applyCommittedBatch`. -/
theorem deliverBatch_snd (machine : ShardStateMachine) (supportsAtomicBatchApply : Bool)
    (entries : List Entry) :
    (machine.applyCommittedBatch supportsAtomicBatchApply entries).2 =
      (machine.deliverBatch supportsAtomicBatchApply entries).2 := by
  unfold applyCommittedBatch deliverBatch
  split_ifs
  · exact machine.deliverEach_snd entries
  · cases machine.collectTransactions ⟨machine.appliedIndex + 1, [], ∅, []⟩ entries with
    | error => rfl
    | ok found =>
      cases found with
      | none => exact machine.deliverEach_snd entries
      | some batches =>
        simp only
        rcases machine.applyCollected entries batches with ⟨result, machine'⟩
        cases result <;> rfl

/-! ## Runs as steps -/

/-- A condition that every entry meets in the state it comes in. -/
def Along (P : ShardStateMachine → ℕ → ShardCommand → Prop) (machine : ShardStateMachine) :
    List Entry → Prop
  | [] => True
  | (term, index, command) :: rest =>
    P machine index command ∧ Along P (machine.applyCommitted term index command).2 rest

def entriesOf : Event → List Entry
  | .apply term index command | .failed term index command _ => [(term, index, command)]
  | .applyBatch _ entries => entries
  | _ => []

def Throughout (P : ShardStateMachine → ℕ → ShardCommand → Prop) (machine : ShardStateMachine) :
    List Event → Prop
  | [] => True
  | event :: events =>
    machine.Along P (entriesOf event) ∧ Throughout P (machine.step event).2 events

/-- Every cutover comes at the next index and goes to a store that holds the machine's
log or a part of it. -/
def AdmitsAll (machine : ShardStateMachine) (events : List Event) : Prop :=
  machine.Throughout InOrder events

/-- A command that can never cut over. -/
def isPlain : ShardCommand → Bool
  | .migration _ => false
  | _ => true

def isPlainRun (events : List Event) : Bool :=
  events.all fun event => (entriesOf event).all fun entry => isPlain entry.2.2

section Plain

variable {P : ShardStateMachine → ℕ → ShardCommand → Prop}
  (hP : ∀ machine index command, isPlain command = true → P machine index command)

include hP

theorem along_of_plain (machine : ShardStateMachine)
    (h : ∀ entry ∈ entries, isPlain entry.2.2 = true) : machine.Along P entries := by
  induction entries generalizing machine with
  | nil => trivial
  | cons entry entries ih =>
    obtain ⟨hfirst, hrest⟩ := List.forall_mem_cons.mp h
    exact ⟨hP machine _ _ hfirst, ih _ hrest⟩

/-- A condition on cutovers holds in a run without migration commands. -/
theorem throughout_of_plain (machine : ShardStateMachine) (h : isPlainRun events = true) :
    machine.Throughout P events := by
  induction events generalizing machine with
  | nil => trivial
  | cons event events ih =>
    rw [isPlainRun, List.all_cons, Bool.and_eq_true, List.all_eq_true] at h
    exact ⟨along_of_plain hP machine h.1, ih _ h.2⟩

end Plain

theorem admitsAll_of_plain (machine : ShardStateMachine) (h : isPlainRun events = true) :
    machine.AdmitsAll events := by
  refine throughout_of_plain ?_ machine h
  intro machine index command hplain
  cases command with
  | migration => cases hplain
  | _ => trivial

theorem Sound.deliverEach_steps (hm : machine.Sound) (h : machine.Along InOrder entries) :
    machine.Steps (machine.deliverEach entries).1 (machine.deliverEach entries).2 := by
  induction entries generalizing machine with
  | nil => exact .refl
  | cons entry entries ih =>
    obtain ⟨term, index, command⟩ := entry
    obtain ⟨horder, hrest⟩ := h
    rw [deliverEach]
    rcases applyCommitted_cases hm term horder with ⟨error, happly⟩ | ⟨outcome, next, happly, hstep⟩
    · rw [happly]
      exact .refl
    · rw [happly] at hrest ⊢
      exact .head hstep (ih (hstep.sound hm) hrest)

theorem Sound.deliverBatch_steps (hm : machine.Sound) (supportsAtomicBatchApply : Bool)
    (h : machine.Along InOrder entries) :
    machine.Steps (machine.deliverBatch supportsAtomicBatchApply entries).1
      (machine.deliverBatch supportsAtomicBatchApply entries).2 := by
  unfold deliverBatch
  split_ifs with hplain
  · exact hm.deliverEach_steps h
  · cases hcollect : machine.collectTransactions ⟨machine.appliedIndex + 1, [], ∅, []⟩ entries with
    | error => exact .refl
    | ok found =>
      cases found with
      | none => exact hm.deliverEach_steps h
      | some =>
        obtain ⟨commits, rest, hentries, hindependent, hbatches, hcollects⟩ :=
          collectTransactions_eq_some hcollect
        have hne : commits ≠ [] := by
          rintro rfl
          rw [hentries] at hplain
          exact hplain (.inl (Nat.zero_lt_succ 1))
        subst hbatches
        subst hentries
        simp only [applyCollected_eq hm.toAligned hcollects hne]
        exact hindependent.steps hm.toAligned (Follows.refl machine)

theorem Sound.stage_cases (hm : machine.Sound) (store : ReplicaStore) :
    (machine.stageMigrationStateStore store).2 = machine ∨
      machine.Step [] (machine.stageMigrationStateStore store).2 := by
  unfold stageMigrationStateStore
  split_ifs with hbad hold
  · exact .inl rfl
  all_goals
    push Not at hbad
    right
    refine .staged _ ?_
    intro generation target hget
    rw [OrderedMap.lookup_insert] at hget
    split_ifs at hget
    · cases hget
      exact hbad.2.2.2.1
    · exact hm.staged generation target hget

theorem Sound.syncStaged_steps (hm : machine.Sound) (generation : BackendGeneration)
    (log : List StoredBatch) : machine.Steps [] (machine.syncStaged generation log) := by
  unfold syncStaged
  cases hstaged : machine.migrationStateStores[generation]? with
  | none => exact .refl
  | some target =>
    apply Step.steps
    refine .staged _ ?_
    intro other store hget
    rw [OrderedMap.lookup_insert] at hget
    split_ifs at hget
    · cases hget
      exact hm.staged generation target hstaged
    · exact hm.staged other store hget

theorem Sound.step_steps (hm : machine.Sound) {event : Event}
    (h : machine.Along InOrder (entriesOf event)) :
    machine.Steps (machine.step event).1 (machine.step event).2 := by
  cases event with
  | apply => exact hm.deliverEach_steps h
  | applyBatch => exact hm.deliverBatch_steps _ h
  | noop term index =>
    rcases applyRaftNoop_cases hm.toAligned term index with heq | hstep
    · rw [step, heq]
      exact .refl
    · exact hstep.steps
  | failed term index command fault =>
    obtain ⟨error, hfailed⟩ := machine.applyCommitted_fault term index command fault
    rw [step, hfailed]
    exact .refl
  | stage store =>
    rcases hm.stage_cases store with heq | hstep
    · rw [step, heq]
      exact .refl
    · exact hstep.steps
  | sync generation log => exact hm.syncStaged_steps generation log

theorem Sound.run_steps (hm : machine.Sound) (h : machine.AdmitsAll events) :
    machine.Steps (machine.run events).1 (machine.run events).2 := by
  induction events generalizing machine with
  | nil => exact .refl
  | cons event events ih =>
    have hstep := hm.step_steps h.1
    exact hstep.trans (ih (hstep.sound hm) h.2)

/-- A property that every step of a machine keeps holds after every run from an
empty store. -/
theorem run_invariant (P : List Delivery → ShardStateMachine → Prop) (binding : ReplicaBinding)
    (hempty : P [] (empty binding))
    (hstep : ∀ {past : List Delivery} {machine : ShardStateMachine} {deliveries : List Delivery}
      {machine' : ShardStateMachine}, machine.Sound → P past machine →
        machine.Step deliveries machine' → P (past ++ deliveries) machine')
    (h : (empty binding).AdmitsAll events) :
    P ((empty binding).run events).1 ((empty binding).run events).2 ∧
      ((empty binding).run events).2.Sound :=
  Steps.invariant P hstep ((empty_sound binding).run_steps h) [] (empty_sound binding) hempty

end ShardStateMachine

end Machine

def sampleBinding : ReplicaBinding where
  clusterId := 1
  graphId := 1
  shardId := 1
  placementEpoch := 1
  replicaId := 1
  backendGeneration := 1
  backendClassDigest := Digest32.zero
  providerKind := .fjall
  contractVersion := 1
  layoutVersion := 1
  capabilityDigest := Digest32.zero
  namespaceId := "sample"
  endpointProfileRef := ""
  credentialRef := ""
  role := .active

def sampleDigest : Digest32 := ⟨List.replicate 32 1, by decide⟩

def sampleHeader (commandId : CommandId) : CommandHeader :=
  ⟨commandId, sampleBinding.placementEpoch, sampleBinding.backendGeneration⟩

def sampleWrite (time : TransactionTime) : LogicalMutation :=
  .putVertex (.plain 1 .decade time)

/-- A one-phase transaction that writes the sample vertex. -/
def sampleTransaction (transactionId : TransactionId) (commandId : CommandId)
    (startTime commitTime : TransactionTime) (snapshotAppliedIndex : UInt64)
    (h : startTime < commitTime) : CommitSingleShardTransaction where
  header := sampleHeader commandId
  transactionId := transactionId
  startTime := startTime
  snapshotAppliedIndex := snapshotAppliedIndex
  requestDigest := Digest32.zero
  mutations := [sampleWrite commitTime]
  valid := by
    refine Result.bind_eq_ok.mpr ⟨(), validateIntentMutations_eq_ok.mpr ?_, ?_⟩
    · exact ⟨(by decide : 1 ≤ maxTransactionIntentItems), by simp, commitTime, by
        simp [sampleWrite, VertexVersion.plain, graphMutationTime]⟩
    · rw [validateCommitFollowsStart, if_neg]
      simpa [sampleWrite, VertexVersion.plain, graphMutationTime] using h

end DtgProxy.Shard

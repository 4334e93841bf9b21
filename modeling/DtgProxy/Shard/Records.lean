import DtgProxy.Shard.Apply

/-! # Batches and the records they leave

A batch is appended, recognised as a redelivery, or refused.  The records that
decide about transactions are put only by the state machine itself, never by the
mutations a command asks for.
-/
namespace DtgProxy.Shard

open Kernel Lib Storage ShardStateMachine ReplicaStore

section Batches

variable [Blake3]
variable {store : ReplicaStore} {mutations : List LogicalMutation}

/-! ## Writing a batch -/

/-- The stored batch of an index is the one offered again. -/
def SameBatch (store : ReplicaStore) (term index : ℕ) (commandId : CommandId)
    (mutations : List LogicalMutation) : Prop :=
  ∃ stored, store.batchAt index = some stored ∧ stored.term = term ∧
    stored.commandId = commandId ∧ digestMutations stored.mutations = digestMutations mutations

theorem writeBatch_eq {term index : ℕ} (hterm : term ≠ 0) (hindex : index ≠ 0)
    (hmutations : mutations ≠ []) (commandId : CommandId) :
    writeBatch store.binding store term index commandId mutations =
      ofStorage (store.apply
        ⟨store.binding, term, index, commandId, mutations, hterm, hindex, hmutations⟩) := by
  rw [writeBatch, CommittedShardBatch.new_isOk hterm hindex hmutations]
  rfl

theorem writeBatch_next {term : ℕ} (hterm : term ≠ 0) (hmutations : mutations ≠ [])
    (commandId : CommandId) :
    writeBatch store.binding store term (store.appliedIndex + 1) commandId mutations =
      .ok (⟨store.appliedIndex + 1, digestMutations mutations, false⟩,
        store.push ⟨term, commandId, mutations⟩) := by
  rw [writeBatch_eq hterm (Nat.succ_ne_zero _) hmutations, apply_eq]
  rw [if_neg (by simp), if_neg (by simp), if_neg (by simp)]
  rfl

theorem writeBatch_again {term index : ℕ} {commandId : CommandId} (hterm : term ≠ 0)
    (hindex : index ≠ 0) (hmutations : mutations ≠ []) (hle : index ≤ store.appliedIndex)
    (hsame : SameBatch store term index commandId mutations) :
    writeBatch store.binding store term index commandId mutations =
      .ok (⟨index, digestMutations mutations, true⟩, store) := by
  obtain ⟨stored, hstored, hsterm, hsid, hsdigest⟩ := hsame
  rw [writeBatch_eq hterm hindex hmutations, apply_eq]
  rw [if_neg (by simp), if_pos hle]
  simp only [hstored]
  rw [if_pos ⟨hsterm, hsid, hsdigest⟩]
  rfl

/-- What comes of a batch that is offered: it is refused, recognised, or appended. -/
def Offered (store : ReplicaStore) (applied term index : ℕ) (commandId : CommandId)
    (mutations : List LogicalMutation) (result : Except ShardError (ApplyReceipt × ReplicaStore)) :
    Prop :=
  (∃ error, result = .error error) ∨
    (index ≤ applied ∧ SameBatch store term index commandId mutations ∧
      result = .ok (⟨index, digestMutations mutations, true⟩, store)) ∨
    (index = applied + 1 ∧ term ≠ 0 ∧ mutations ≠ [] ∧
      result = .ok (⟨index, digestMutations mutations, false⟩,
        store.push ⟨term, commandId, mutations⟩))

theorem writeBatch_cases (store : ReplicaStore) (term index : ℕ) (commandId : CommandId)
    (mutations : List LogicalMutation) :
    Offered store store.appliedIndex term index commandId mutations
      (writeBatch store.binding store term index commandId mutations) := by
  by_cases hzero : term = 0 ∨ index = 0
  · exact .inl ⟨_, by rw [writeBatch, CommittedShardBatch.new, dif_pos hzero]; rfl⟩
  by_cases hnil : mutations = []
  · exact .inl ⟨_, by rw [writeBatch, CommittedShardBatch.new, dif_neg hzero, dif_pos hnil]; rfl⟩
  obtain ⟨hterm, hindex⟩ := not_or.mp hzero
  by_cases hnext : index = store.appliedIndex + 1
  · subst hnext
    exact .inr (.inr ⟨rfl, hterm, hnil, writeBatch_next hterm hnil commandId⟩)
  by_cases hsame : index ≤ store.appliedIndex ∧ SameBatch store term index commandId mutations
  · exact .inr (.inl ⟨hsame.1, hsame.2, writeBatch_again hterm hindex hnil hsame.1 hsame.2⟩)
  · left
    rw [writeBatch_eq hterm hindex hnil, apply_eq, if_neg (by simp)]
    by_cases hle : index ≤ store.appliedIndex
    · rw [if_pos hle]
      cases hstored : store.batchAt index with
      | none => exact ⟨_, rfl⟩
      | some stored =>
        refine ⟨_, congrArg ofStorage (if_neg fun h => hsame ⟨hle, stored, hstored, h⟩)⟩
    · rw [if_neg hle, if_pos hnext]
      exact ⟨_, rfl⟩

variable {binding : ReplicaBinding} {term index : ℕ} {commandId : CommandId}

theorem writeBatch_fault (binding : ReplicaBinding) (store : ReplicaStore) (term index : ℕ)
    (commandId : CommandId) (mutations : List LogicalMutation) (fault : StorageError) :
    ∃ error, writeBatch binding store term index commandId mutations (some fault) =
      .error error := by
  unfold writeBatch
  cases CommittedShardBatch.new binding term index commandId mutations <;> exact ⟨_, rfl⟩

theorem binding_of_writeBatch {result : ApplyReceipt × ReplicaStore}
    (h : writeBatch binding store term index commandId mutations = .ok result) :
    binding = store.binding := by
  obtain ⟨batch, hbatch, happly⟩ := Result.bind_eq_ok.mp h
  cases hnew : CommittedShardBatch.new binding term index commandId mutations with
  | error => rw [hnew] at hbatch; cases hbatch
  | ok =>
    rw [hnew] at hbatch
    cases hbatch
    by_contra hne
    rw [apply_eq, (CommittedShardBatch.new_ok hnew).1, if_pos hne] at happly
    cases happly

/-- A batch that is written is in the store already, or is new. -/
theorem writeBatch_eq_ok {store' : ReplicaStore} {receipt : ApplyReceipt}
    {fault : Option StorageError}
    (h : writeBatch binding store term index commandId mutations fault = .ok (receipt, store')) :
    receipt.raftIndex = index ∧
      ((receipt.replayed = true ∧ index ≤ store.appliedIndex ∧ store' = store) ∨
        (receipt.replayed = false ∧ index = store.appliedIndex + 1 ∧
          store' = store.push ⟨term, commandId, mutations⟩)) := by
  cases fault with
  | some fault =>
    obtain ⟨error, hfails⟩ := writeBatch_fault binding store term index commandId mutations fault
    cases hfails.symm.trans h
  | none =>
    obtain rfl := binding_of_writeBatch h
    rcases writeBatch_cases store term index commandId mutations
      with ⟨error, hwrite⟩ | ⟨hle, -, hwrite⟩ | ⟨hnext, -, -, hwrite⟩
    · cases hwrite.symm.trans h
    · cases hwrite.symm.trans h
      exact ⟨rfl, .inl ⟨rfl, hle, rfl⟩⟩
    · cases hwrite.symm.trans h
      exact ⟨rfl, .inr ⟨rfl, hnext, rfl⟩⟩

/-- The store is as it was, or has one more record of metadata. -/
def KeepsGraph (store store' : ReplicaStore) : Prop :=
  store' = store ∨ ∃ term commandId metadata,
    store' = store.push ⟨term, commandId, [.putReplicaMetadata metadata]⟩

/-- What a call did: it committed no change of the graph, and a result that is reported
without a rejection is a replay. -/
def Uncommitted (store : ReplicaStore) (result : Except ShardError ApplyOutcome × ShardStateMachine) :
    Prop :=
  KeepsGraph store result.2.stateStore ∧
    ∀ outcome, result.1 = .ok outcome → outcome.rejection = none → outcome.replayed = true

theorem keepsGraph_applyRecord (machine : ShardStateMachine) (term index : ℕ)
    (commandId : CommandId) (metadata : ReplicaMetadata) (rejection : Option ApplyRejection)
    (fault : Option StorageError) :
    KeepsGraph machine.stateStore
      (machine.applyRecord term index commandId metadata rejection fault).2.stateStore := by
  unfold applyRecord
  split
  · exact .inl rfl
  · next receipt store hwrite =>
    rcases (writeBatch_eq_ok hwrite).2 with ⟨-, -, rfl⟩ | ⟨-, -, rfl⟩
    · exact .inl rfl
    · exact .inr ⟨_, _, _, rfl⟩

theorem uncommitted_reject (machine : ShardStateMachine) (term index : ℕ) (command : ShardCommand)
    (error : ShardError) (fault : Option StorageError) :
    Uncommitted machine.stateStore (machine.reject term index command error fault) := by
  unfold reject
  split
  · refine ⟨keepsGraph_applyRecord _ _ _ _ _ _ _, fun outcome h hnone => ?_⟩
    unfold applyRejected applyRecord at h
    split at h
    · cases h
    · cases h
      cases hnone
  · exact ⟨.inl rfl, fun outcome h => by cases h⟩

end Batches

/-! ## Which records a batch leaves -/

def ReservedKey.decides : ReservedKey → Bool
  | .transactionState _ | .activeIntents | .singleShardTransaction _ | .homeDecision _ => true
  | _ => false

theorem lastMetadata_graph {name : String} {mutations : List LogicalMutation}
    (h : ∀ mutation ∈ mutations, graphMutationTime mutation ≠ none) :
    lastMetadata name mutations = none := by
  apply lastMetadata_eq_none
  intro metadata hmem
  exact absurd rfl (h _ hmem)

variable {metadata : ReplicaMetadata}

theorem lastMetadata_record (key' : ReservedKey) {key : ReservedKey}
    (h : metadata.name = key'.name) (hne : key' ≠ key) :
    lastMetadata key.name [.putReplicaMetadata metadata] = none := by
  apply lastMetadata_eq_none
  intro other hmem
  cases List.mem_singleton.mp hmem
  rw [h]
  exact fun heq => hne (ReservedKey.name_injective heq)

theorem ParticipantIntent.graph (intent : ParticipantIntent) :
    ∀ mutation ∈ intent.mutations, graphMutationTime mutation ≠ none := by
  obtain ⟨-, -, time, htime⟩ := validateIntentMutations_eq_ok.mp intent.valid
  intro mutation hmem
  rw [htime mutation hmem]
  exact Option.some_ne_none time

theorem CommitSingleShardTransaction.graph (command : CommitSingleShardTransaction) :
    ∀ mutation ∈ command.mutations, graphMutationTime mutation ≠ none := by
  intro mutation hmem
  rw [command.commitTime_spec.2 mutation hmem]
  exact Option.some_ne_none _

theorem CommitSingleShard.name_not_reserved (command : CommitSingleShard)
    (h : .putReplicaMetadata metadata ∈ command.mutations) :
    reservedName metadata.name = false := by
  have hvalid := command.valid
  unfold validateSingleShardMutations at hvalid
  split_ifs at hvalid with hany
  rw [Bool.not_eq_true, List.any_eq_false] at hany
  simpa using hany _ h

section Commands

variable [Blake3]

/-- The record a command's own mutations put, if any. -/
def ShardCommand.ownKey : ShardCommand → Option ReservedKey
  | .prewriteIntent _ => some .transactionIntent
  | .advanceClosedTimestamp _ => some .closedTimestamp
  | .installSnapshot _ => some .installedSnapshot
  | .migration _ => some .migrationPhase
  | _ => none

variable {key : ReservedKey}

theorem ShardCommand.lastMetadata_of_ownKey_ne (command : ShardCommand)
    (hkey : command.ownKey ≠ some key) :
    lastMetadata key.name command.mutations = none := by
  cases command with
  | commitSingleShard command =>
    apply lastMetadata_eq_none
    intro metadata hmem heq
    have hfalse := command.name_not_reserved hmem
    rw [heq, ReservedKey.reservedName_name] at hfalse
    cases hfalse
  | commitSingleShardTransaction command => exact lastMetadata_graph command.graph
  | prewriteIntent command =>
    have hintent : lastMetadata key.name
        [.putReplicaMetadata command.intent.metadata] = none :=
      lastMetadata_record .transactionIntent rfl (fun h => hkey (congrArg some h))
    rw [mutations, PrewriteIntent.mutations, lastMetadata_cons, hintent]
    rfl
  | recordHomeDecision => rfl
  | finalizeParticipant command =>
    rw [mutations, FinalizeParticipant.mutations, lastMetadata_append]
    cases command.intent with
    | none => rfl
    | some intent => exact lastMetadata_graph intent.graph
  | advanceClosedTimestamp =>
    exact lastMetadata_record .closedTimestamp rfl (fun h => hkey (congrArg some h))
  | installSnapshot =>
    exact lastMetadata_record .installedSnapshot rfl (fun h => hkey (congrArg some h))
  | migration command =>
    refine lastMetadata_record .migrationPhase ?_ (fun h => hkey (congrArg some h))
    unfold migrationMetadata
    cases command.online <;> rfl

/-- A command's own mutations leave the records about transactions alone. -/
theorem ShardCommand.lastMetadata_mutations (command : ShardCommand) (hkey : key.decides = true) :
    lastMetadata key.name command.mutations = none := by
  apply command.lastMetadata_of_ownKey_ne
  cases command <;> rintro ⟨⟩ <;> cases hkey

/-- A commit that finalizes carries the prepared mutations at its own time. -/
theorem FinalizeParticipant.times {command : FinalizeParticipant} {intent : ParticipantIntent}
    (h : command.intent = some intent) :
    command.terminal.state = .committed ∧ ∀ mutation ∈ intent.mutations,
      graphMutationTime mutation = some command.terminal.transactionTime := by
  have hvalid := command.valid
  unfold validateFinalize at hvalid
  rw [h] at hvalid
  cases hstate : command.terminal.state with
  | prepared | aborted =>
    rw [hstate] at hvalid
    cases hvalid
  | committed =>
    simp only [hstate] at hvalid
    split_ifs at hvalid with hbad
    push Not at hbad
    exact ⟨rfl, hbad.2.2.2⟩

end Commands

end DtgProxy.Shard

import DtgProxy.Shard.Runs

/-! # The lifecycle of intents on one shard

The durable state of a transaction is read from the log of applied batches.  From
one batch to the next it stays, is prepared, or reaches its one terminal state.
The prepared mutations become visible in the batch that commits them, and the
persisted index lists exactly the transactions that are prepared.
-/
namespace DtgProxy.Shard

open Kernel Lib Storage ReplicaStore ReservedKey

def graphMutations (mutations : List LogicalMutation) : List LogicalMutation :=
  mutations.filter fun mutation => (graphMutationTime mutation).isSome

theorem graphMutations_append (first rest : List LogicalMutation) :
    graphMutations (first ++ rest) = graphMutations first ++ graphMutations rest :=
  List.filter_append first rest

theorem graphMutations_of_graph {mutations : List LogicalMutation}
    (h : ∀ mutation ∈ mutations, graphMutationTime mutation ≠ none) :
    graphMutations mutations = mutations := by
  apply List.filter_eq_self.mpr
  intro mutation hmem
  exact Option.isSome_iff_ne_none.mpr (h mutation hmem)

def recordIn (log : List StoredBatch) (key : ReservedKey) : Option ReplicaMetadata :=
  ReplicaStore.lastMetadata key.name (log.flatMap (·.mutations))

theorem recordIn_concat (log : List StoredBatch) (batch : StoredBatch) (key : ReservedKey) :
    recordIn (log ++ [batch]) key =
      (lastMetadata key.name batch.mutations).or (recordIn log key) := by
  rw [recordIn, List.flatMap_append, lastMetadata_append]
  simp [recordIn]

/-- The step of a transaction's state from one batch to the next. -/
inductive Moves : Option DurableTransactionState → Option DurableTransactionState → Prop where
  | stays (state : Option DurableTransactionState) : Moves state state
  | prepares (intent : ParticipantIntent) : Moves none (some ⟨intent, none⟩)
  | finishes (intent : ParticipantIntent) (terminal : TransactionRecord)
      (h : terminal.state = .committed ∨ terminal.state = .aborted) :
      Moves (some ⟨intent, none⟩) (some ⟨intent, some terminal⟩)

section Machine

variable [Blake3]
variable {log : List StoredBatch}
variable {deliveries : List Delivery} {batch : StoredBatch}

def transactionStateIn (log : List StoredBatch) (id : TransactionId) :
    Except ShardError (Option DurableTransactionState) :=
  match recordIn log (.transactionState id) with
  | none => .ok none
  | some metadata => do
    let state ← decodeTransactionStateMetadata metadata
    .ok (some state)

/-- The persisted index of prepared transactions after a log. -/
def activeIndexIn (log : List StoredBatch) :
    Except ShardError (OrderedMap TransactionId Digest32) :=
  match recordIn log .activeIntents with
  | none => .ok ∅
  | some metadata => decodeActiveIntentsMetadata metadata

/-- The index lists exactly the transactions that are prepared without a terminal
state. -/
def IndexExact (log : List StoredBatch) : Prop :=
  ∃ index, activeIndexIn log = .ok index ∧ ∀ (id : TransactionId) (digest : Digest32),
    index[id]? = some digest ↔
      ∃ intent, transactionStateIn log id = .ok (some ⟨intent, none⟩) ∧ intent.digest = digest

/-- The state of a transaction moves along its lifecycle. -/
def Lifecycle (before after : List StoredBatch) (id : TransactionId) : Prop :=
  ∃ state state', transactionStateIn before id = .ok state ∧
    transactionStateIn after id = .ok state' ∧ Moves state state'

/-- A prepared transaction becomes committed. -/
def BecomesCommitted (before after : List StoredBatch) (id : TransactionId)
    (intent : ParticipantIntent) : Prop :=
  transactionStateIn before id = .ok (some ⟨intent, none⟩) ∧
    ∃ terminal : TransactionRecord, terminal.state = .committed ∧
      transactionStateIn after id = .ok (some ⟨intent, some terminal⟩)

/-- The graph mutations of a batch come from a delivery at its index that was
accepted there: a commit, a one-phase transaction, or a finalization that commits
its prepared transaction. -/
def Accounted (deliveries : List Delivery) (index : ℕ) (before after : List StoredBatch)
    (mutations : List LogicalMutation) : Prop :=
  graphMutations mutations = [] ∨
    ∃ term command outcome, ((term, index, command), outcome) ∈ deliveries ∧
      outcome.rejection = none ∧ outcome.replayed = false ∧
      match command with
      | .commitSingleShard command => graphMutations mutations = graphMutations command.mutations
      | .commitSingleShardTransaction command => graphMutations mutations = command.mutations
      | .finalizeParticipant command =>
        ∃ intent, BecomesCommitted before after command.terminal.id intent ∧
          graphMutations mutations = intent.mutations
      | _ => False

/-- What holds between consecutive prefixes of a log. -/
structure LifecycleStep (deliveries : List Delivery) (index : ℕ) (before : List StoredBatch)
    (batch : StoredBatch) : Prop where
  moves : ∀ id, Lifecycle before (before ++ [batch]) id
  visible : ∀ id intent, BecomesCommitted before (before ++ [batch]) id intent →
    graphMutations batch.mutations = intent.mutations
  accounted : Accounted deliveries index before (before ++ [batch]) batch.mutations

/-- The lifecycle of every transaction over a whole log. -/
structure LifecycleHistory (deliveries : List Delivery) (log : List StoredBatch) : Prop where
  steps : ∀ k batch, log[k]? = some batch →
    LifecycleStep deliveries (k + 1) (log.take k) batch
  index : ∀ k, k ≤ log.length → IndexExact (log.take k)

variable {index : ℕ}

theorem LifecycleStep.mono {more : List Delivery} (h : LifecycleStep deliveries index log batch)
    (hmore : deliveries ⊆ more) :
    LifecycleStep more index log batch := by
  refine ⟨h.moves, h.visible, ?_⟩
  rcases h.accounted with hnone | ⟨term, command, outcome, hmem, hrest⟩
  · exact .inl hnone
  · exact .inr ⟨term, command, outcome, hmore hmem, hrest⟩

theorem LifecycleHistory.mono (h : LifecycleHistory deliveries log) (more : List Delivery) :
    LifecycleHistory (deliveries ++ more) log :=
  ⟨fun k batch hbatch => (h.steps k batch hbatch).mono (List.subset_append_left _ _), h.index⟩

variable {past : List Delivery}

theorem LifecycleHistory.concat (h : LifecycleHistory past log)
    (hstep : LifecycleStep deliveries (log.length + 1) log batch)
    (hindex : IndexExact (log ++ [batch])) :
    LifecycleHistory (past ++ deliveries) (log ++ [batch]) := by
  constructor
  · intro k other hother
    rcases Nat.lt_or_ge k log.length with hlt | hge
    · rw [List.getElem?_append_left hlt] at hother
      rw [List.take_append_of_le_length (le_of_lt hlt)]
      exact (h.mono deliveries).steps k other hother
    · obtain ⟨hbound, -⟩ := List.getElem?_eq_some_iff.mp hother
      rw [List.length_append, List.length_singleton] at hbound
      obtain rfl : k = log.length := by omega
      rw [List.getElem?_append_right (le_refl _), Nat.sub_self, List.getElem?_cons_zero] at hother
      cases hother
      rw [List.take_left]
      exact hstep.mono (List.subset_append_right _ _)
  · intro k hk
    rcases Nat.lt_or_ge log.length k with hlt | hge
    · rw [List.length_append, List.length_singleton] at hk
      rw [List.take_of_length_le (by rw [List.length_append, List.length_singleton]; omega)]
      exact hindex
    · rw [List.take_append_of_le_length hge]
      exact h.index k hge

/-! ## States and the index of a sound machine -/

variable {id : TransactionId}

theorem transactionStateIn_concat_of_none
    (h : lastMetadata (transactionState id).name batch.mutations = none) :
    transactionStateIn (log ++ [batch]) id = transactionStateIn log id := by
  unfold transactionStateIn
  rw [recordIn_concat, h, Option.none_or]

variable {terminal : Option TransactionRecord} {intent : ParticipantIntent}
  {metadata : ReplicaMetadata}

theorem transactionStateIn_concat_of_some
    (h : lastMetadata (transactionState id).name batch.mutations =
      some metadata)
    (hmetadata : transactionStateMetadata intent terminal = .ok metadata) :
    transactionStateIn (log ++ [batch]) id = .ok (some ⟨intent, terminal⟩) := by
  unfold transactionStateIn
  rw [recordIn_concat, h, Option.some_or]
  simp only [decodeTransactionStateMetadata_of_eq_ok hmetadata]
  rfl

variable {batch : StoredBatch} {intent : ParticipantIntent}

namespace ShardStateMachine

variable {machine : ShardStateMachine}
variable {deliveries : List Delivery} {command : ShardCommand} {transition : IntentTransition}
  {records : List LogicalMutation}

theorem transactionStateIn_log (machine : ShardStateMachine) (id : TransactionId) :
    transactionStateIn machine.stateStore.log id = machine.durableTransactionState id :=
  rfl

theorem Sound.indexExact (hm : machine.Sound) : IndexExact machine.stateStore.log := by
  have hprepared : ∀ (id : TransactionId) (intent : ParticipantIntent),
      machine.activeIntents[id]? = some intent ↔
        transactionStateIn machine.stateStore.log id = .ok (some ⟨intent, none⟩) := by
    intro id intent
    constructor
    · intro hget
      exact durableTransactionState_of_holds (hm.keyed id intent hget).2.2
    · intro hstate
      obtain ⟨metadata, hrecord, -⟩ := hm.holds_of_eq hstate
      obtain ⟨found, hfound, hactive⟩ := hm.states id metadata hrecord
      cases hstate.symm.trans (durableTransactionState_of_holds hfound)
      exact hactive rfl
  rcases hm.listed with hlisted | ⟨hlisted, hempty⟩
  · have hindex : activeIndexIn machine.stateStore.log =
        .ok (machine.activeIntents.map fun _ intent => intent.digest) := by
      unfold activeIndexIn
      rw [show recordIn machine.stateStore.log .activeIntents = some _ from hlisted]
      exact decodeActiveIntentsMetadata_of_eq_ok (activeIntentsMetadata_eq_ok hm.room)
    refine ⟨_, hindex, ?_⟩
    intro id digest
    rw [Std.ExtTreeMap.getElem?_map, Option.map_eq_some_iff]
    simp only [hprepared]
  · refine ⟨∅, ?_, ?_⟩
    · unfold activeIndexIn
      rw [show recordIn machine.stateStore.log .activeIntents = none from hlisted]
    · intro id digest
      simp only [← hprepared, hempty]
      simp

/-! ## Steps -/

/-- A batch that does not put a transaction's state leaves it as it is. -/
theorem Sound.lifecycle_of_none (hm : machine.Sound)
    (h : lastMetadata (transactionState id).name batch.mutations = none) :
    Lifecycle machine.stateStore.log (machine.stateStore.log ++ [batch]) id ∧
      ∀ intent, ¬ BecomesCommitted machine.stateStore.log (machine.stateStore.log ++ [batch]) id
        intent := by
  rw [Lifecycle]
  simp only [BecomesCommitted, transactionStateIn_concat_of_none h]
  constructor
  · rcases hm.durableTransactionState_eq id with ⟨-, hstate⟩ | ⟨state, -, hstate⟩
    · exact ⟨none, none, hstate, hstate, .stays none⟩
    · exact ⟨some state, some state, hstate, hstate, .stays _⟩
  · rintro intent ⟨hbefore, terminal, -, hafter⟩
    rw [hbefore] at hafter
    cases hafter

theorem Sound.lifecycleStep_of_none (hm : machine.Sound)
    (hnone : ∀ id, lastMetadata (transactionState id).name
      batch.mutations = none)
    (haccounted : Accounted deliveries index machine.stateStore.log
      (machine.stateStore.log ++ [batch]) batch.mutations) :
    LifecycleStep deliveries index machine.stateStore.log batch :=
  ⟨fun id => (hm.lifecycle_of_none (hnone id)).1,
    fun id intent h => absurd h ((hm.lifecycle_of_none (hnone id)).2 intent), haccounted⟩

theorem Sound.lifecycleStep_of_state (hm : machine.Sound)
    {before : Option DurableTransactionState}
    (hmetadata : transactionStateMetadata intent terminal = .ok metadata)
    (hself : lastMetadata
      (transactionState intent.transactionId).name batch.mutations = some metadata)
    (hother : ∀ id, id ≠ intent.transactionId →
      lastMetadata (transactionState id).name batch.mutations = none)
    (hbefore : machine.durableTransactionState intent.transactionId = .ok before)
    (hmoves : Moves before (some ⟨intent, terminal⟩))
    (hvisible : before = some ⟨intent, none⟩ → terminal ≠ none →
      (∀ record ∈ terminal, record.state = .committed) →
        graphMutations batch.mutations = intent.mutations)
    (haccounted : Accounted deliveries index machine.stateStore.log
      (machine.stateStore.log ++ [batch]) batch.mutations) :
    LifecycleStep deliveries index machine.stateStore.log batch := by
  have hafter : transactionStateIn (machine.stateStore.log ++ [batch]) intent.transactionId =
      .ok (some ⟨intent, terminal⟩) := transactionStateIn_concat_of_some hself hmetadata
  refine ⟨?_, ?_, haccounted⟩
  · intro id
    by_cases hid : id = intent.transactionId
    · subst hid
      exact ⟨before, _, hbefore, hafter, hmoves⟩
    · exact (hm.lifecycle_of_none (hother id hid)).1
  · intro id prepared hbecomes
    by_cases hid : id = intent.transactionId
    · subst hid
      obtain ⟨hprepared, record, hcommitted, hrecord⟩ := hbecomes
      rw [hafter] at hrecord
      cases hrecord
      rw [transactionStateIn_log, hbefore] at hprepared
      cases hprepared
      refine hvisible rfl (by simp) ?_
      intro found hfound
      cases hfound
      exact hcommitted
    · exact absurd hbecomes ((hm.lifecycle_of_none (hother id hid)).2 prepared)

theorem graphMutations_persisted (h : machine.recordsOf command transition = .ok records) :
    graphMutations (persisted command transition records) =
      if transition.isReplay then [] else graphMutations command.mutations := by
  have hrecords : graphMutations records = [] := by
    apply List.filter_eq_nil_iff.mpr
    intro mutation hmem
    rw [((recordsOf_metadata h).2 mutation hmem).not_graph]
    simp
  rw [persisted, graphMutations_append, hrecords, List.append_nil]
  split_ifs
  · rfl
  · rfl

theorem lastMetadata_state {active : OrderedMap TransactionId ParticipantIntent}
    (h : intentRecords intent terminal active = .ok records) :
    ∃ metadata, transactionStateMetadata intent terminal = .ok metadata ∧
      lastMetadata (transactionState intent.transactionId).name
        (persisted command transition records) = some metadata ∧
      ∀ id, id ≠ intent.transactionId →
        lastMetadata (transactionState id).name
          (persisted command transition records) = none := by
  obtain ⟨metadata, hmetadata, -, -, hlast⟩ := lastMetadata_intentRecords h
  refine ⟨metadata, hmetadata, ?_, ?_⟩
  · rw [lastMetadata_persisted rfl, hlast, if_neg (by simp), if_pos rfl]
  · intro id hid
    rw [lastMetadata_persisted rfl, hlast, if_neg (by simp), if_neg (by simpa using hid)]

/-- The lifecycle step of a command that is accepted at the next index. -/
def AcceptedStep (machine : ShardStateMachine) (term : ℕ) (command : ShardCommand)
    (transition : IntentTransition) (records : List LogicalMutation) : Prop :=
  LifecycleStep
    [((term, machine.appliedIndex + 1, command),
      machine.freshOutcome (persisted command transition records) transition.isReplay none)]
    (machine.appliedIndex + 1) machine.stateStore.log
    ⟨term, command.header.commandId, persisted command transition records⟩

section Accepted

variable {term : ℕ} (hm : machine.Sound)

include hm

/-- Commands whose records hold no transaction state and that write nothing to the graph. -/
theorem Sound.acceptedStep_of_none (h : machine.recordsOf command transition = .ok records)
    (hrecords : ∀ id, lastMetadata (transactionState id).name records = none)
    (hgraph : (if transition.isReplay then [] else graphMutations command.mutations) = []) :
    machine.AcceptedStep term command transition records :=
  hm.lifecycleStep_of_none (fun id => (lastMetadata_persisted rfl ..).trans (hrecords id))
    (.inl ((graphMutations_persisted h).trans hgraph))

theorem Sound.acceptedStep_commit {command : CommitSingleShard}
    (h : machine.recordsOf (.commitSingleShard command) .none = .ok records) :
    machine.AcceptedStep term (.commitSingleShard command) .none records := by
  have hgraph := graphMutations_persisted h
  cases h
  exact hm.lifecycleStep_of_none (fun _ => lastMetadata_persisted rfl ..)
    (.inr ⟨term, _, _, List.mem_cons_self, rfl, rfl, hgraph⟩)

theorem Sound.acceptedStep_transaction {command : CommitSingleShardTransaction}
    (h : machine.recordsOf (.commitSingleShardTransaction command) .none = .ok records) :
    machine.AcceptedStep term (.commitSingleShardTransaction command) .none records := by
  have hgraph := (graphMutations_persisted h).trans (graphMutations_of_graph command.graph)
  cases h
  refine hm.lifecycleStep_of_none (fun id => (lastMetadata_persisted rfl ..).trans ?_)
    (.inr ⟨term, _, _, List.mem_cons_self, rfl, rfl, hgraph⟩)
  exact lastMetadata_record (.singleShardTransaction command.transactionId) rfl (by simp)

theorem Sound.acceptedStep_prepare {command : PrewriteIntent}
    (hstate : machine.record (.transactionState command.intent.transactionId) = none)
    (h : machine.recordsOf (.prewriteIntent command) (.prepare command.intent) = .ok records) :
    machine.AcceptedStep term (.prewriteIntent command) (.prepare command.intent) records := by
  obtain ⟨metadata, hmetadata, hself, hother⟩ := lastMetadata_state h
  have hbefore : machine.durableTransactionState command.intent.transactionId = .ok none := by
    rcases hm.durableTransactionState_eq command.intent.transactionId with ⟨-, hok⟩ | ⟨_, hholds, -⟩
    · exact hok
    · obtain ⟨found, hfound, -⟩ := hholds
      exact absurd (hstate.symm.trans hfound) (by simp)
  refine hm.lifecycleStep_of_state hmetadata hself hother hbefore (.prepares _) ?_
    (.inl (graphMutations_persisted h))
  intro hprepared
  cases hprepared

theorem Sound.acceptedStep_prepareReplay {command : PrewriteIntent}
    (hold : machine.activeIntents[command.intent.transactionId]? = some command.intent)
    (h : machine.recordsOf (.prewriteIntent command) .replay = .ok records) :
    machine.AcceptedStep term (.prewriteIntent command) .replay records := by
  obtain ⟨metadata, hmetadata, hself, hother⟩ := lastMetadata_state h
  have hbefore := durableTransactionState_of_holds (hm.keyed _ _ hold).2.2
  refine hm.lifecycleStep_of_state hmetadata hself hother hbefore (.stays _) ?_
    (.inl (graphMutations_persisted h))
  intro _ hterminal
  exact absurd rfl hterminal

omit hm in
/-- A finalization carries the prepared intent exactly if it commits. -/
theorem finalize_carries {command : FinalizeParticipant}
    (hintent : ∀ carried ∈ command.intent, carried = intent) :
    command.terminal.state = .aborted ∧ graphMutations command.mutations = [] ∨
      command.terminal.state = .committed ∧
        graphMutations command.mutations = intent.mutations := by
  rw [FinalizeParticipant.mutations]
  cases hcase : command.intent with
  | none =>
    refine .inl ⟨?_, rfl⟩
    have hvalid := command.valid
    unfold validateFinalize at hvalid
    rw [hcase] at hvalid
    cases hs : command.terminal.state with
    | aborted => rfl
    | committed | prepared =>
      rw [hs] at hvalid
      cases hvalid
  | some carried =>
    obtain rfl := hintent carried hcase
    refine .inr ⟨(FinalizeParticipant.times hcase).1, ?_⟩
    simp only [graphMutations_append, graphMutations_of_graph carried.graph]
    simp [graphMutations, graphMutationTime]

theorem Sound.acceptedStep_finalize {command : FinalizeParticipant}
    (hactive : machine.activeIntents[command.terminal.id]? = some intent)
    (hterminal : validateIntentTerminal intent command.terminal = .ok ())
    (hintent : ∀ carried ∈ command.intent, carried = intent)
    (h : machine.recordsOf (.finalizeParticipant command) (.finalize command.terminal.id intent) =
      .ok records) :
    machine.AcceptedStep term (.finalizeParticipant command) (.finalize command.terminal.id intent)
      records := by
  obtain ⟨metadata, hmetadata, hself, hother⟩ := lastMetadata_state h
  obtain ⟨hid, -, htime⟩ := validateIntentTerminal_eq_ok.mp hterminal
  have hgraph := graphMutations_persisted h
  have hbefore := durableTransactionState_of_holds (hm.keyed _ _ hactive).2.2
  rw [hid] at hbefore
  refine hm.lifecycleStep_of_state hmetadata hself hother hbefore
    (.finishes intent command.terminal (terminal_state_of_timeIsValid htime)) ?_ ?_
  · intro _ _ hcommitted
    have hstate := hcommitted command.terminal rfl
    rcases finalize_carries hintent with ⟨haborted, -⟩ | ⟨-, hmutations⟩
    · rw [hstate] at haborted
      cases haborted
    · exact hgraph.trans hmutations
  · rcases finalize_carries hintent with ⟨-, hmutations⟩ | ⟨hcommitted, hmutations⟩
    · exact .inl (hgraph.trans hmutations)
    · refine .inr ⟨term, _, _, List.mem_cons_self, rfl, rfl, intent, ?_, hgraph.trans hmutations⟩
      rw [hid]
      exact ⟨hbefore, command.terminal, hcommitted,
        transactionStateIn_concat_of_some hself hmetadata⟩

theorem Sound.acceptedStep_finalizeReplay {command : FinalizeParticipant}
    {state : DurableTransactionState}
    (hstate : machine.durableTransactionState command.terminal.id = .ok (some state))
    (h : machine.recordsOf (.finalizeParticipant command) .replay = .ok records) :
    machine.AcceptedStep term (.finalizeParticipant command) .replay records := by
  have hgraph := graphMutations_persisted h
  obtain ⟨found, hfound, h⟩ := Result.bind_eq_ok.mp h
  rw [hstate] at hfound
  cases hfound
  obtain ⟨metadata, hmetadata, hself, hother⟩ := lastMetadata_state h
  obtain ⟨-, -, -, hid⟩ := hm.holds_of_eq hstate
  rw [← hid] at hstate
  refine hm.lifecycleStep_of_state hmetadata hself hother hstate (.stays _) ?_ (.inl hgraph)
  intro hprepared hterminal
  exact absurd (congrArg DurableTransactionState.terminal (Option.some.inj hprepared)) hterminal

theorem Sound.acceptedStep (haccepts : machine.Accepts command transition)
    (h : machine.recordsOf command transition = .ok records) :
    machine.AcceptedStep term command transition records := by
  cases haccepts with
  | commit => exact hm.acceptedStep_commit h
  | advance | install | migrate =>
    cases h
    exact hm.acceptedStep_of_none rfl (fun _ => rfl) rfl
  | transaction => exact hm.acceptedStep_transaction h
  | transactionReplay command =>
    cases h
    refine hm.acceptedStep_of_none rfl (fun id => ?_) rfl
    exact lastMetadata_record (.singleShardTransaction command.transactionId) rfl (by simp)
  | homeDecision command | homeDecisionReplay command =>
    obtain ⟨metadata, hmetadata, hname, -⟩ := exists_homeDecisionMetadata command
    refine hm.acceptedStep_of_none h (fun id => ?_) rfl
    unfold recordsOf at h
    simp only [hmetadata] at h
    cases h
    exact lastMetadata_record (.homeDecision command.decision.id) hname (by simp)
  | prepare command _ _ hstate => exact hm.acceptedStep_prepare hstate h
  | prepareReplay command hold => exact hm.acceptedStep_prepareReplay hold h
  | finalize command intent hactive hterminal hintent =>
    exact hm.acceptedStep_finalize hactive hterminal hintent h
  | finalizeReplay command state _ hstate => exact hm.acceptedStep_finalizeReplay hstate h

end Accepted

theorem LifecycleHistory.step {machine' : ShardStateMachine} (hm : machine.Sound)
    (h : LifecycleHistory past machine.stateStore.log) (hstep : machine.Step deliveries machine') :
    LifecycleHistory (past ++ deliveries) machine'.stateStore.log := by
  have hindex := (hstep.sound hm).indexExact
  have hlength : machine.stateStore.log.length + 1 = machine.appliedIndex + 1 := by
    rw [hm.applied]
    rfl
  cases hstep with
  | redelivered | closedAgain | staged => exact h.mono _
  | noop term commandId hterm =>
    refine h.concat ?_ hindex
    refine hm.lifecycleStep_of_none (fun id => ?_) (.inl rfl)
    exact lastMetadata_record .raftNoop rfl (by simp)
  | rejected term command rejection hterm =>
    refine h.concat ?_ hindex
    refine hm.lifecycleStep_of_none (fun id => ?_) (.inl rfl)
    exact lastMetadata_record .raftRejection rfl (by simp)
  | accepted term command transition records hterm hvalid hstays haccepts hrecords hne =>
    refine h.concat ?_ hindex
    rw [hlength]
    exact hm.acceptedStep haccepts hrecords
  | cutover term command generation target hterm hvalid hcut htarget hcopy =>
    have hlog : (machine.cutOver term command generation target).stateStore.log =
        machine.stateStore.log ++ [⟨term, command.header.commandId,
          (ShardCommand.migration command).mutations⟩] := by
      rw [← hcopy]
      rfl
    rw [hlog] at hindex ⊢
    refine h.concat ?_ hindex
    refine hm.lifecycleStep_of_none (fun id => ?_) (.inl rfl)
    exact (ShardCommand.migration command).lastMetadata_mutations rfl

end ShardStateMachine

end Machine

end DtgProxy.Shard

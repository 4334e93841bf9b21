import DtgProxy.Shard.Steps

/-! # Steps keep a machine sound

A batch changes the records about transactions in one of four ways: not at all,
one receipt, one home decision, or one transaction state together with the index
of prepared transactions.  Each of them keeps a machine sound, so every step does.
-/
namespace DtgProxy.Shard

open Kernel Lib Storage ShardCommand ReservedKey
open ReplicaStore (lastMetadata lastMetadata_append lastMetadata_cons lastMetadata_nil)

section Machine

variable [Blake3] {active : OrderedMap TransactionId ParticipantIntent}
  {terminal : Option TransactionRecord} {metadata : ReplicaMetadata} {intent : ParticipantIntent}

namespace ShardStateMachine

variable {machine : ShardStateMachine}
variable {records : List LogicalMutation} {batch : StoredBatch} {command : ShardCommand}
  {transition : IntentTransition}
variable {term : ℕ} {deliveries : List Delivery} {machine' : ShardStateMachine}

omit [Blake3] in
@[simp] theorem extend_record (batch : StoredBatch) (key : ReservedKey) :
    (machine.extend batch).record key =
      (lastMetadata key.name batch.mutations).or (machine.record key) :=
  ReplicaStore.replicaMetadata_push _ _ _

/-! ## Records of accepted commands -/

/-- The records about transactions after an accepted command are those the
machine added. -/
theorem lastMetadata_persisted {key : ReservedKey} (hkey : key.decides = true)
    (command : ShardCommand) (transition : IntentTransition) (records : List LogicalMutation) :
    lastMetadata key.name (persisted command transition records) =
      lastMetadata key.name records := by
  rw [persisted, lastMetadata_append]
  split_ifs
  · rw [lastMetadata_nil, Option.or_none]
  · rw [command.lastMetadata_mutations hkey, Option.or_none]

omit [Blake3] in
theorem lastMetadata_single (key : ReservedKey) (metadata : ReplicaMetadata) :
    lastMetadata key.name [.putReplicaMetadata metadata] =
      if metadata.name = key.name then some metadata else none := by
  rw [lastMetadata_cons, lastMetadata_nil, Option.none_or]

theorem lastMetadata_persisted_single {key put : ReservedKey} (hkey : key.decides = true)
    (hname : metadata.name = put.name) :
    lastMetadata key.name (persisted command transition [.putReplicaMetadata metadata]) =
      if put = key then some metadata else none := by
  rw [lastMetadata_persisted hkey, lastMetadata_single, hname]
  simp only [name_inj]

/-- What the two records of a two-phase command put. -/
theorem lastMetadata_intentRecords (h : intentRecords intent terminal active = .ok records) :
    ∃ metadata, transactionStateMetadata intent terminal = .ok metadata ∧
      active.size ≤ maxTransactionIntentItems ∧
      records = [.putReplicaMetadata metadata,
        .putReplicaMetadata (ReservedKey.activeIntents.record (activeIndexBytes active))] ∧
      ∀ key : ReservedKey, lastMetadata key.name records =
        if key = .activeIntents then
          some (ReservedKey.activeIntents.record (activeIndexBytes active))
        else if key = .transactionState intent.transactionId then some metadata else none := by
  obtain ⟨metadata, hmetadata, h⟩ := Result.bind_eq_ok.mp h
  obtain ⟨index, hindex, h⟩ := Result.bind_eq_ok.mp h
  cases h
  have hsize : active.size ≤ maxTransactionIntentItems := by
    unfold activeIntentsMetadata at hindex
    split_ifs at hindex with hsize
    exact not_lt.mp hsize
  rw [activeIntentsMetadata_eq_ok hsize] at hindex
  cases hindex
  refine ⟨metadata, hmetadata, hsize, rfl, ?_⟩
  intro key
  obtain ⟨tag, -, -, hname⟩ := transactionStateMetadata_eq_ok.mp hmetadata
  rw [lastMetadata_cons, lastMetadata_single, ← hname]
  by_cases hactive : key = .activeIntents
  · simp [hactive]
  · by_cases hstate : key = .transactionState intent.transactionId
    · simp [hstate]
    · simp [hactive, hstate, Ne.symm hactive, Ne.symm hstate]

/-! ## Ways to extend a sound machine -/

/-- A batch that a store can hold. -/
def Storable (batch : StoredBatch) : Prop :=
  batch.mutations ≠ [] ∧ batch.mutations.length ≤ u64Max

theorem Sound.batches_push (hm : machine.Sound) (hbatch : Storable batch) :
    ∀ other ∈ (machine.stateStore.push batch).log,
      other.mutations ≠ [] ∧ other.mutations.length ≤ u64Max :=
  List.forall_mem_append.mpr ⟨hm.batches, List.forall_mem_singleton.mpr hbatch⟩

theorem HoldsState.of_record {store store' : ReplicaStore} {id : TransactionId}
    {state : DurableTransactionState} (h : HoldsState store id state)
    (heq : store'.replicaMetadata (transactionState id).name =
      store.replicaMetadata (transactionState id).name) :
    HoldsState store' id state := by
  obtain ⟨metadata, hrecord, hrest⟩ := h
  exact ⟨metadata, heq.trans hrecord, hrest⟩

/-- A batch that puts no record about transactions but receipts and home decisions,
which can be read back. -/
theorem Sound.extend_of_states (hm : machine.Sound) (hbatch : Storable batch)
    (hstates : ∀ id, lastMetadata (transactionState id).name batch.mutations = none)
    (hactive : lastMetadata ReservedKey.activeIntents.name batch.mutations = none)
    (hreceipts : ∀ id metadata,
      lastMetadata (singleShardTransaction id).name batch.mutations = some metadata →
        ∃ command, metadata = singleShardTransactionMetadata command)
    (hdecisions : ∀ id metadata,
      lastMetadata (homeDecision id).name batch.mutations = some metadata →
        ∃ command : RecordHomeDecision, command.decision.id = id ∧
          homeDecisionMetadata command = .ok metadata)
    (closed : Option TransactionTime) :
    ({ machine.extend batch with closedTimestamp := closed } : ShardStateMachine).Sound := by
  have hsame : ∀ {key : ReservedKey}, lastMetadata key.name batch.mutations = none →
      (machine.extend batch).record key = machine.record key := by
    intro key hnone
    rw [extend_record, hnone, Option.none_or]
  constructor
  · constructor
    · change machine.appliedIndex + 1 = (machine.stateStore.push batch).appliedIndex
      rw [ReplicaStore.appliedIndex_push, hm.applied]
    · exact hm.bound
  · exact hm.room
  · intro id intent hget
    obtain ⟨hshard, hsnapshot, hstate⟩ := hm.keyed id intent hget
    exact ⟨hshard, Nat.le_succ_of_le hsnapshot, HoldsState.of_record hstate (hsame (hstates id))⟩
  · unfold ListsActive
    rw [show (machine.extend batch).stateStore.replicaMetadata ReservedKey.activeIntents.name =
      machine.stateStore.replicaMetadata ReservedKey.activeIntents.name from hsame hactive]
    exact hm.listed
  · intro id metadata hrecord
    obtain ⟨state, hstate, hprepared⟩ :=
      hm.states id metadata ((hsame (hstates id)).symm.trans hrecord)
    exact ⟨state, HoldsState.of_record hstate (hsame (hstates id)), hprepared⟩
  · intro id metadata hrecord
    rcases Option.or_eq_some_iff.mp ((extend_record _ _).symm.trans hrecord) with hput | ⟨-, hold⟩
    · exact hreceipts id metadata hput
    · exact hm.receipts id metadata hold
  · intro id metadata hrecord
    rcases Option.or_eq_some_iff.mp ((extend_record _ _).symm.trans hrecord) with hput | ⟨-, hold⟩
    · exact hdecisions id metadata hput
    · exact hm.decisions id metadata hold
  · exact hm.batches_push hbatch
  · exact hm.staged

/-- A batch that leaves every record about transactions as it is. -/
theorem Sound.extend_of_none (hm : machine.Sound) (hbatch : Storable batch)
    (hnone : ∀ key : ReservedKey, key.decides = true →
      lastMetadata key.name batch.mutations = none)
    (closed : Option TransactionTime) :
    ({ machine.extend batch with closedTimestamp := closed } : ShardStateMachine).Sound := by
  apply hm.extend_of_states hbatch
  · exact fun id => hnone (.transactionState id) rfl
  · exact hnone .activeIntents rfl
  all_goals
    intro id metadata hput
    rw [hnone _ rfl] at hput
    cases hput

/-- A batch that puts one transaction state and the index of the prepared
transactions. -/
theorem Sound.extend_intent (hm : machine.Sound) (hbatch : Storable batch)
    (hrecords : intentRecords intent terminal active = .ok records)
    (hputs : ∀ key : ReservedKey, key.decides = true →
      lastMetadata key.name batch.mutations =
        lastMetadata key.name records)
    (hself : active[intent.transactionId]? = if terminal = none then some intent else none)
    (hother : ∀ id, id ≠ intent.transactionId → active[id]? = machine.activeIntents[id]?)
    (hplace : terminal = none → intent.shardId = machine.binding.shardId ∧
      intent.snapshotAppliedIndex.toNat ≤ machine.appliedIndex) :
    ({ machine.extend batch with activeIntents := active } : ShardStateMachine).Sound := by
  obtain ⟨metadata, hmetadata, hsize, -, hlast⟩ := lastMetadata_intentRecords hrecords
  have hrecord : ∀ key : ReservedKey, key.decides = true →
      (machine.extend batch).record key =
        if key = .activeIntents then
          some (ReservedKey.activeIntents.record (activeIndexBytes active))
        else if key = .transactionState intent.transactionId then some metadata
        else machine.record key := by
    intro key hkey
    rw [extend_record, hputs key hkey, hlast key]
    split_ifs <;> rfl
  have hstate : (machine.extend batch).record (.transactionState intent.transactionId) =
      some metadata := by
    rw [hrecord _ rfl, if_neg (by simp), if_pos rfl]
  have hstates : ∀ id, id ≠ intent.transactionId →
      (machine.extend batch).record (.transactionState id) =
        machine.record (.transactionState id) := by
    intro id hid
    rw [hrecord _ rfl, if_neg (by simp), if_neg (by simpa using hid)]
  have hholds : HoldsState (machine.extend batch).stateStore intent.transactionId
      ⟨intent, terminal⟩ := ⟨metadata, hstate, hmetadata, rfl⟩
  constructor
  · constructor
    · change machine.appliedIndex + 1 = (machine.stateStore.push batch).appliedIndex
      rw [ReplicaStore.appliedIndex_push, hm.applied]
    · exact hm.bound
  · exact hsize
  · intro id prepared hget
    by_cases hid : id = intent.transactionId
    · subst hid
      rw [hself] at hget
      split_ifs at hget with hterminal
      cases hget
      subst hterminal
      obtain ⟨hshard, hsnapshot⟩ := hplace rfl
      exact ⟨hshard, Nat.le_succ_of_le hsnapshot, hholds⟩
    · change active[id]? = some prepared at hget
      rw [hother id hid] at hget
      obtain ⟨hshard, hsnapshot, hheld⟩ := hm.keyed id prepared hget
      exact ⟨hshard, Nat.le_succ_of_le hsnapshot, HoldsState.of_record hheld (hstates id hid)⟩
  · left
    exact (hrecord .activeIntents rfl).trans (if_pos rfl)
  · intro id found hfound
    by_cases hid : id = intent.transactionId
    · subst hid
      refine ⟨⟨intent, terminal⟩, hholds, ?_⟩
      intro hterminal
      exact hself.trans (if_pos hterminal)
    · have hfound' : machine.record (.transactionState id) = some found :=
        (hstates id hid).symm.trans hfound
      obtain ⟨state, hheld, hprepared⟩ := hm.states id found hfound'
      refine ⟨state, HoldsState.of_record hheld (hstates id hid), ?_⟩
      intro hterminal
      exact (hother id hid).trans (hprepared hterminal)
  · intro id found hfound
    refine hm.receipts id found (Eq.trans ?_ hfound)
    exact ((hrecord (.singleShardTransaction id) rfl).trans (by simp)).symm
  · intro id found hfound
    refine hm.decisions id found (Eq.trans ?_ hfound)
    exact ((hrecord (.homeDecision id) rfl).trans (by simp)).symm
  · exact hm.batches_push hbatch
  · exact hm.staged

/-! ## Accepted commands -/

omit [Blake3] in
theorem storable_of_ne (hne : batch.mutations ≠ [])
    (hlength : batch.mutations.length ≤ 2 ^ 63) : Storable batch :=
  ⟨hne, le_trans hlength (by decide)⟩

/-- A command asks for fewer mutations than a store can number. -/
theorem length_mutations_lt (command : ShardCommand) : command.mutations.length < 2 ^ 63 := by
  have hitems : maxTransactionIntentItems + 1 < 2 ^ 63 := by decide
  cases command with
  | commitSingleShard command => exact command.length_lt
  | commitSingleShardTransaction command =>
    obtain ⟨_, hvalid, -⟩ := Result.bind_eq_ok.mp command.valid
    have hcount := (validateIntentMutations_eq_ok.mp hvalid).1
    change command.mutations.length < 2 ^ 63
    omega
  | prewriteIntent => exact (by decide : 2 < 2 ^ 63)
  | recordHomeDecision | advanceClosedTimestamp | installSnapshot
  | migration => exact (by decide : 1 < 2 ^ 63)
  | finalizeParticipant command =>
    change command.mutations.length < 2 ^ 63
    rw [FinalizeParticipant.mutations, List.length_append, List.length_singleton]
    cases command.intent with
    | none => exact (by decide : 0 + 1 < 2 ^ 63)
    | some intent =>
      have hcount := (validateIntentMutations_eq_ok.mp intent.valid).1
      simp only
      omega

/-- A record about a transaction. -/
def Decides (mutation : LogicalMutation) : Prop :=
  ∃ (key : ReservedKey) (metadata : ReplicaMetadata), key.decides = true ∧
    metadata.name = key.name ∧ mutation = .putReplicaMetadata metadata

omit [Blake3] in
theorem Decides.not_graph {mutation : LogicalMutation} (h : Decides mutation) :
    graphMutationTime mutation = none := by
  obtain ⟨key, metadata, -, -, rfl⟩ := h
  rfl

/-- The machine adds at most two records to a command, all about transactions. -/
theorem recordsOf_metadata (h : machine.recordsOf command transition = .ok records) :
    records.length ≤ 2 ∧ ∀ mutation ∈ records, Decides mutation := by
  have hintent : ∀ {intent terminal active} {records : List LogicalMutation},
      intentRecords intent terminal active = .ok records →
        records.length ≤ 2 ∧ ∀ mutation ∈ records, Decides mutation := by
    intro intent terminal active records h
    obtain ⟨metadata, hmetadata, -, hrecords, -⟩ := lastMetadata_intentRecords h
    obtain ⟨tag, -, -, hname⟩ := transactionStateMetadata_eq_ok.mp hmetadata
    rw [hrecords]
    refine ⟨le_refl 2, ?_⟩
    simp only [List.mem_cons, List.not_mem_nil, or_false, forall_eq_or_imp, forall_eq]
    exact ⟨⟨.transactionState intent.transactionId, metadata, rfl, by rw [← hname]; rfl, rfl⟩,
      ⟨.activeIntents, _, rfl, rfl, rfl⟩⟩
  unfold recordsOf at h
  split at h
  · next decision =>
    obtain ⟨metadata, hmetadata, h⟩ := Result.bind_eq_ok.mp h
    obtain ⟨found, hfound, hname, -⟩ := exists_homeDecisionMetadata decision
    obtain rfl : metadata = found := Except.ok.inj (hmetadata.symm.trans hfound)
    cases h
    refine ⟨Nat.le_succ 1, ?_⟩
    intro mutation hmem
    exact ⟨_, metadata, rfl, hname, List.mem_singleton.mp hmem⟩
  · cases h
    refine ⟨Nat.le_succ 1, ?_⟩
    intro mutation hmem
    exact ⟨.singleShardTransaction _, _, rfl, rfl, List.mem_singleton.mp hmem⟩
  · exact hintent h
  · exact hintent h
  · exact hintent h
  · obtain ⟨state, -, h⟩ := Result.bind_eq_ok.mp h
    cases state with
    | none => cases h
    | some => exact hintent h
  · cases h
    exact ⟨Nat.zero_le 2, by simp⟩

theorem storable_persisted (term : ℕ) (h : machine.recordsOf command transition = .ok records)
    (hne : persisted command transition records ≠ []) :
    Storable ⟨term, command.header.commandId, persisted command transition records⟩ := by
  refine ⟨hne, ?_⟩
  have hcommand := length_mutations_lt command
  have hrecords := (recordsOf_metadata h).1
  have hbound : 2 ^ 63 + 2 ≤ u64Max := by decide
  rw [persisted, List.length_append]
  split_ifs
  · rw [List.length_nil]
    omega
  · omega

theorem Sound.settle_plain (hm : machine.Sound) (h : machine.recordsOf command .none = .ok records)
    (hnil : records = []) (hne : persisted command .none records ≠ []) :
    (machine.settle term command .none records).Sound := by
  apply hm.extend_of_none (storable_persisted term h hne)
  intro key hkey
  rw [lastMetadata_persisted hkey, hnil, lastMetadata_nil]

/-- The record that a command puts. -/
inductive Puts : ReservedKey → ReplicaMetadata → Prop
  | receipt (command : CommitSingleShardTransaction) :
    Puts (singleShardTransaction command.transactionId) (singleShardTransactionMetadata command)
  | decision (command : RecordHomeDecision) {metadata : ReplicaMetadata}
      (h : homeDecisionMetadata command = .ok metadata) :
    Puts (homeDecision command.decision.id) metadata

/-- A receipt or a home decision is the only record its command puts. -/
theorem Sound.settle_single (hm : machine.Sound) {put : ReservedKey} (hputs : Puts put metadata)
    (hname : metadata.name = put.name)
    (hbatch : Storable ⟨term, command.header.commandId,
      persisted command transition [.putReplicaMetadata metadata]⟩)
    (hactive : machine.nextActiveIntents transition = machine.activeIntents) :
    (machine.settle term command transition [.putReplicaMetadata metadata]).Sound := by
  rw [settle, hactive]
  apply hm.extend_of_states hbatch
  · intro id
    rw [lastMetadata_persisted_single rfl hname, if_neg (by rintro rfl; cases hputs)]
  · rw [lastMetadata_persisted_single rfl hname, if_neg (by rintro rfl; cases hputs)]
  all_goals
    intro id found hfound
    rw [lastMetadata_persisted_single rfl hname] at hfound
    split_ifs at hfound with hid
    cases hfound
  · cases hputs with
    | receipt command => exact ⟨command, rfl⟩
    | decision => cases hid
  · cases hputs with
    | receipt => cases hid
    | decision command hdecided =>
      cases hid
      exact ⟨command, rfl, hdecided⟩

theorem Sound.settle (hm : machine.Sound) (hvalid : machine.Valid command)
    (haccepts : machine.Accepts command transition)
    (h : machine.recordsOf command transition = .ok records)
    (hne : persisted command transition records ≠ []) :
    (machine.settle term command transition records).Sound := by
  have hstorable := storable_persisted term h hne
  have hputs : ∀ key : ReservedKey, key.decides = true →
      lastMetadata key.name (persisted command transition records) =
        lastMetadata key.name records :=
    fun key hkey => lastMetadata_persisted hkey command transition records
  cases haccepts with
  | commit | advance | install | migrate => exact hm.settle_plain h (by cases h; rfl) hne
  | transaction command | transactionReplay command =>
    cases h
    exact hm.settle_single (.receipt command) rfl hstorable rfl
  | homeDecision command | homeDecisionReplay command =>
    obtain ⟨decided, hdecided, hname, -⟩ := exists_homeDecisionMetadata command
    unfold recordsOf at h
    simp only [hdecided] at h
    cases h
    exact hm.settle_single (.decision command hdecided) hname hstorable rfl
  | prepare command hnew hroom hstate hfree =>
    refine hm.extend_intent hstorable h hputs ?_ ?_ ?_
    · exact OrderedMap.lookup_insert_self _ _ _
    · intro id hid
      exact OrderedMap.lookup_insert_of_ne _ _ (Ne.symm hid)
    · intro _
      exact ⟨hvalid.shard _ rfl, hvalid.snapshot _ rfl⟩
  | prepareReplay command hold =>
    refine hm.extend_intent hstorable h hputs hold (fun _ _ => rfl) ?_
    intro _
    exact ⟨hvalid.shard _ rfl, hvalid.snapshot _ rfl⟩
  | finalize command intent hactive hterminal hintent =>
    obtain ⟨hid, -, -⟩ := validateIntentTerminal_eq_ok.mp hterminal
    refine hm.extend_intent hstorable h hputs ?_ ?_ (fun hnone => nomatch hnone)
    · rw [if_neg (by simp)]
      change (machine.activeIntents.erase command.terminal.id)[intent.transactionId]? = none
      rw [OrderedMap.lookup_erase, if_pos hid]
    · intro id hne'
      change (machine.activeIntents.erase command.terminal.id)[id]? = machine.activeIntents[id]?
      rw [OrderedMap.lookup_erase, if_neg (fun heq => hne' (heq.symm.trans hid))]
  | finalizeReplay command state hactive hstate hmatches =>
    obtain ⟨found, hfound, h⟩ := Result.bind_eq_ok.mp h
    rw [hstate] at hfound
    cases hfound
    have hterminal : state.terminal = some command.terminal := by
      simp only [DurableTransactionState.matchesFinalize, Bool.and_eq_true,
        decide_eq_true_eq] at hmatches
      exact hmatches.1
    obtain ⟨-, -, -, hid⟩ := hm.holds_of_eq hstate
    refine hm.extend_intent hstorable h hputs ?_ (fun _ _ => rfl) ?_
    · rw [hterminal, if_neg (by simp), hid]
      exact hactive
    · intro hnone
      rw [hterminal] at hnone
      cases hnone

/-! ## Steps -/

theorem Sound.cutOver (hm : machine.Sound) {command : MigrationCommand}
    {generation : BackendGeneration} {target : ReplicaStore}
    (htarget : machine.cutoverTarget command = .ok (generation, target))
    (hcopy : target.log = machine.stateStore.log) :
    (machine.cutOver term command generation target).Sound := by
  obtain ⟨hstaged, -⟩ := cutoverTarget_eq_ok htarget
  have hshard := hm.staged generation target hstaged
  have hsound : (machine.extend ⟨term, command.header.commandId,
      (migration command).mutations⟩).Sound := by
    refine hm.extend_of_none (storable_of_ne (by simp [mutations]) ?_) ?_
      machine.closedTimestamp
    · exact le_of_lt (length_mutations_lt (.migration command))
    · intro key hkey
      exact (migration command).lastMetadata_mutations hkey
  have hrecord : ∀ name, (machine.cutOver term command generation target).stateStore.replicaMetadata
      name = (machine.extend ⟨term, command.header.commandId,
        (migration command).mutations⟩).stateStore.replicaMetadata name := by
    intro name
    simp only [ShardStateMachine.cutOver, extend, ReplicaStore.replicaMetadata,
      ReplicaStore.mutations, ReplicaStore.push, hcopy]
  have hlog : (machine.cutOver term command generation target).stateStore.log =
      (machine.extend ⟨term, command.header.commandId,
        (migration command).mutations⟩).stateStore.log := by
    simp only [ShardStateMachine.cutOver, extend, ReplicaStore.push, hcopy]
  constructor
  · constructor
    · have happlied := hsound.applied
      unfold ReplicaStore.appliedIndex at happlied ⊢
      rw [hlog]
      exact happlied
    · rfl
  · exact hm.room
  · intro id intent hget
    obtain ⟨hintent, hsnapshot, hstate⟩ := hsound.keyed id intent hget
    exact ⟨hintent.trans hshard.symm, hsnapshot, HoldsState.of_record hstate (hrecord _)⟩
  · unfold ListsActive
    rw [hrecord]
    exact hsound.listed
  · intro id metadata hfound
    obtain ⟨state, hstate, hprepared⟩ := hsound.states id metadata ((hrecord _).symm.trans hfound)
    exact ⟨state, HoldsState.of_record hstate (hrecord _), hprepared⟩
  · intro id metadata hfound
    exact hsound.receipts id metadata ((hrecord _).symm.trans hfound)
  · intro id metadata hfound
    exact hsound.decisions id metadata ((hrecord _).symm.trans hfound)
  · rw [hlog]
    exact hsound.batches
  · intro other store hother
    change (machine.migrationStateStores.erase generation)[other]? = some store at hother
    rw [OrderedMap.lookup_erase] at hother
    split_ifs at hother
    exact (hsound.staged other store hother).trans hshard.symm

theorem Step.sound (hm : machine.Sound)
    (h : machine.Step deliveries machine') : machine'.Sound := by
  cases h with
  | redelivered => exact hm
  | closedAgain => exact { hm with }
  | noop =>
    refine hm.extend_of_none (storable_of_ne (by simp) (by simp)) ?_ machine.closedTimestamp
    intro key hkey
    exact lastMetadata_record .raftNoop rfl (by rintro rfl; cases hkey)
  | rejected =>
    refine hm.extend_of_none (storable_of_ne (by simp) (by simp)) ?_ machine.closedTimestamp
    intro key hkey
    exact lastMetadata_record .raftRejection rfl (by rintro rfl; cases hkey)
  | accepted term command transition records hterm hvalid hstays haccepts hrecords hne =>
    exact hm.settle hvalid haccepts hrecords hne
  | cutover term command generation target hterm hvalid hcut htarget hcopy =>
    exact hm.cutOver htarget hcopy
  | staged stores hshard => exact { hm with staged := hshard }

/-- The rule for invariants of runs: a relation between a sound machine and the
deliveries so far that every step keeps holds after all steps. -/
theorem Steps.invariant (P : List Delivery → ShardStateMachine → Prop)
    (hstep : ∀ {past : List Delivery} {machine : ShardStateMachine} {deliveries : List Delivery}
      {machine' : ShardStateMachine}, machine.Sound → P past machine →
        machine.Step deliveries machine' → P (past ++ deliveries) machine')
    (h : machine.Steps deliveries machine') (past : List Delivery) (hm : machine.Sound)
    (hpast : P past machine) : P (past ++ deliveries) machine' ∧ machine'.Sound := by
  induction h generalizing past with
  | refl =>
    rw [List.append_nil]
    exact ⟨hpast, hm⟩
  | head hfirst _ ih =>
    rw [← List.append_assoc]
    exact ih _ (hfirst.sound hm) (hstep hm hpast hfirst)

theorem Steps.sound (h : machine.Steps deliveries machine') (hm : machine.Sound) : machine'.Sound :=
  (Steps.invariant (fun _ _ => True) (fun _ _ _ => trivial) h [] hm trivial).2

end ShardStateMachine

end Machine

end DtgProxy.Shard

import DtgProxy.Execution.Gateway
import DtgProxy.Shard.Records

/-! # Creating a vertex through a Gateway

The Gateway lowers a `CREATE` to a one-phase transaction whose identifiers are hashes of the
request.  The Data node stamps the transaction with a commit time and has its shard apply
it.  A transaction that the shard has committed before keeps its commit time and is
reported as replayed.
-/
namespace DtgProxy.Kernel.Value

mutual

/-- Whether the maps of a value are ordered. -/
def decideWellFormed : (value : Value) → Decidable value.WellFormed
  | .null | .boolean _ | .integer _ | .floatBits _ | .bytes _ | .string _ =>
    .isTrue (by rw [WellFormed]; trivial)
  | .list values =>
    have := decideListWellFormed values
    decidable_of_iff (ListWellFormed values) (by rw [WellFormed])
  | .map entries =>
    have := decideEntriesWellFormed entries
    decidable_of_iff (EntriesWellFormed entries ∧ (entries.map Prod.fst).Pairwise (· < ·))
      (by rw [WellFormed])

def decideListWellFormed : (values : List Value) → Decidable (ListWellFormed values)
  | [] => .isTrue (by rw [ListWellFormed]; trivial)
  | value :: values =>
    have := decideWellFormed value
    have := decideListWellFormed values
    decidable_of_iff (WellFormed value ∧ ListWellFormed values) (by rw [ListWellFormed])

def decideEntriesWellFormed :
    (entries : List (String × Value)) → Decidable (EntriesWellFormed entries)
  | [] => .isTrue (by rw [EntriesWellFormed]; trivial)
  | (_, value) :: entries =>
    have := decideWellFormed value
    have := decideEntriesWellFormed entries
    decidable_of_iff (WellFormed value ∧ EntriesWellFormed entries) (by rw [EntriesWellFormed])

end

instance (entries : List (String × Value)) : Decidable (EntriesWellFormed entries) :=
  decideEntriesWellFormed entries

end DtgProxy.Kernel.Value

namespace DtgProxy.Execution

open Kernel Lib Plan Shard ShardStateMachine
open Storage (ReplicaBinding ReplicaStore VertexVersion)

section Binding

open DtgProxy.Language (LogicalExpr)

variable (parameters : OrderedMap String GatewayValue)

def missingParameter (name : String) : GatewayExecutionError :=
  ⟨"DTG-EXECUTION-MISSING-PARAMETER", "missing required parameter: " ++ name, .never⟩

mutual

/-- An expression with its parameters replaced by their values. -/
def bindLogicalExpr : LogicalExpr → Except GatewayExecutionError LogicalExpr
  | .literal value => .ok (.literal value)
  | .parameter name =>
    match parameters[name]? with
    | none => .error (missingParameter name)
    | some value => .ok (.literal value)
  | .column name => .ok (.column name)
  | .property input name => do
    let input ← bindLogicalExpr input
    .ok (.property input name)
  | .unary operator input => do
    let input ← bindLogicalExpr input
    .ok (.unary operator input)
  | .binary left operator right => do
    let left ← bindLogicalExpr left
    let right ← bindLogicalExpr right
    .ok (.binary left operator right)
  | .list values => do
    let values ← bindLogicalExprs values
    .ok (.list values)
  | .map entries => do
    let entries ← bindLogicalEntries entries
    .ok (.map entries)

def bindLogicalExprs : List LogicalExpr → Except GatewayExecutionError (List LogicalExpr)
  | [] => .ok []
  | value :: values => do
    let value ← bindLogicalExpr value
    let values ← bindLogicalExprs values
    .ok (value :: values)

def bindLogicalEntries :
    List (String × LogicalExpr) → Except GatewayExecutionError (List (String × LogicalExpr))
  | [] => .ok []
  | (name, value) :: entries => do
    let value ← bindLogicalExpr value
    let entries ← bindLogicalEntries entries
    .ok ((name, value) :: entries)

end

def bindProperty (persisted : OrderedMap String Value) (property : String × LogicalExpr) :
    Except GatewayExecutionError (OrderedMap String Value) := do
  match ← bindLogicalExpr parameters property.2 with
  | .literal value => .ok (persisted.insert property.1 value)
  | _ => .error ⟨"DTG-EXECUTION-WRITE-PROPERTY",
      "process CREATE properties must bind to literal values", .never⟩

end Binding

def labelsProperty : String := "\x00dtg.labels"

def labelsValue (labels : List String) : Value := .list (labels.map .string)

/-- A checked vertex version.  The maps of a value are ordered in the source, so only the
empty name is an error there. -/
def newVertexVersion (id : VertexId) (version : UInt64) (validTime : ValidInterval)
    (transactionTime : TransactionTime) (properties : OrderedMap String Value) :
    Except Storage.StorageError VertexVersion :=
  if h : (∀ entry ∈ properties.toList, entry.1 ≠ "") ∧
      Value.EntriesWellFormed properties.toList then
    .ok ⟨id, version, validTime, transactionTime,
      ⟨properties.toList, List.pairwise_map.mpr (OrderedMap.ordered_toList properties), h.2⟩, h.1⟩
  else .error (.invalidMutation "property names must be nonempty")

def i64Max : Int64 := Int64.maxValue

def lowerProcessCreateVertex (vertexId : VertexId) (labels : List String)
    (properties : OrderedMap String DtgProxy.Language.LogicalExpr)
    (validFrom : DtgProxy.Language.ValidTimeExpr) (parameters : OrderedMap String GatewayValue)
    (commitTime : TransactionTime) : Except GatewayExecutionError VertexVersion :=
  if properties.contains labelsProperty then
    .error ⟨"DTG-EXECUTION-WRITE-LABELS",
      "process CREATE properties may not overwrite the reserved label property", .never⟩
  else
    match validFrom with
    | .parameter _ => .error ⟨"DTG-EXECUTION-WRITE-VALID-TIME",
        "process CREATE requires a literal VALID FROM value", .never⟩
    | .literal validFrom => do
      let persisted ← properties.toList.foldlM (bindProperty parameters) ∅
      if h : validFrom < i64Max then
        (newVertexVersion vertexId 1 ⟨validFrom, i64Max, h⟩ commitTime
          (persisted.insert labelsProperty (labelsValue labels))).mapError
            fun error => processWriteError error.message
      else .error (processWriteError (KernelError.invalidInterval validFrom i64Max).message)

/-- The hash function of the `sha2` crate.  Nothing is assumed about it. -/
class Sha256 where
  hash : List UInt8 → Digest32

theorem mutations_of_new {header : CommandHeader} {transactionId : TransactionId}
    {startTime : TransactionTime} {snapshotAppliedIndex : UInt64} {requestDigest : Digest32}
    {mutations : List Storage.LogicalMutation} {transaction : CommitSingleShardTransaction}
    (h : CommitSingleShardTransaction.new header transactionId startTime snapshotAppliedIndex
      requestDigest mutations = .ok transaction) :
    transaction.mutations = mutations ∧ transaction.transactionId = transactionId := by
  unfold CommitSingleShardTransaction.new at h
  split at h
  · cases h
  · cases h
    exact ⟨rfl, rfl⟩

section Gateway

variable [Blake3] [Sha256]

def processWriteDigest (domain : String) (requestId ordinal : ℕ) : Digest32 :=
  Sha256.hash (Storage.utf8 domain ++ BigEndian.encode 16 requestId ++ BigEndian.encode 8 ordinal)

/-- The first half of the digest, and at least one. -/
def processWriteIdentity (kind : IdKind) (hkind : kind.bytes = 16) (domain : String)
    (requestId ordinal : ℕ) : Identifier kind where
  get := max (BigEndian.decode ((processWriteDigest domain requestId ordinal).bytes.take 16)) 1
  nonzero := Nat.ne_of_gt (lt_of_lt_of_le Nat.zero_lt_one (le_max_right _ _))
  inRange := by
    rw [hkind]
    refine max_lt (lt_of_lt_of_eq (BigEndian.decode_lt _) ?_) (by norm_num)
    rw [List.length_take, Digest32.length_bytes]
    rfl

/-! ## The command of a request -/

/-- A compiled `CREATE` with the identifier of its request and its parameters. -/
structure CreateRequest where
  requestId : ℕ
  write : DtgProxy.Language.LogicalWrite
  parameters : OrderedMap String GatewayValue

def CreateRequest.transactionId (request : CreateRequest) : TransactionId :=
  processWriteIdentity .transaction rfl "dtg-gateway-create-transaction-v1" request.requestId 0

def CreateRequest.commandId (request : CreateRequest) : CommandId :=
  processWriteIdentity .command rfl "dtg-gateway-create-command-v1" request.requestId 0

def CreateRequest.vertexId (request : CreateRequest) : VertexId :=
  processWriteIdentity .vertex rfl "dtg-gateway-create-vertex-v1" request.requestId 0

def writeShapeError : GatewayExecutionError :=
  ⟨"DTG-EXECUTION-WRITE-SHAPE", "process writes support only one input-free vertex CREATE", .never⟩

def writeRoutingError (message : String) : GatewayExecutionError :=
  ⟨"DTG-EXECUTION-WRITE-ROUTING", message, .never⟩

/-- The transaction that creates a vertex on the shard.  Its vertex carries the first time
after the snapshot until the Data node stamps it. -/
def createTransaction (context : PlanningContext) (shard : CatalogShard) (request : CreateRequest) :
    Except GatewayExecutionError CommitSingleShardTransaction :=
  if request.write.input.isSome then .error writeShapeError
  else
    match request.write.mutations with
    | [.createVertex _ labels properties validFrom] =>
      let startTime := context.snapshotRequirements.transactionTime
      match TransactionTime.new (startTime.get + 1) with
      | none => .error (processWriteError "snapshot timestamp overflow")
      | some placeholderTime => do
        let vertex ← lowerProcessCreateVertex request.vertexId labels properties validFrom
          request.parameters placeholderTime
        (CommitSingleShardTransaction.new
          ⟨request.commandId, shard.binding.placementEpoch, shard.binding.backendGeneration⟩
          request.transactionId startTime (UInt64.ofNat shard.appliedIndex)
          (processWriteDigest "dtg-gateway-create-command-digest-v1" request.requestId 0)
          [.putVertex vertex]).mapError fun error => processWriteError error.message
    | _ => .error writeShapeError

/-- The shard a request is routed to, with the transaction for it. -/
def createCommand (context : PlanningContext) (request : CreateRequest) :
    Except GatewayExecutionError (CatalogShard × CommitSingleShardTransaction) :=
  match context.catalog.shards with
  | [shard] =>
    if shard.binding.role ≠ .active then
      .error (writeRoutingError "process CREATE requires an active catalog Shard")
    else do
      let transaction ← createTransaction context shard request
      .ok (shard, transaction)
  | _ => .error (writeRoutingError "process CREATE requires exactly one catalog Shard")

/-- A transaction of the Gateway puts one vertex, under the identifier of its request. -/
theorem createCommand_eq_ok {context : PlanningContext} {request : CreateRequest}
    {shard : CatalogShard} {transaction : CommitSingleShardTransaction}
    (h : createCommand context request = .ok (shard, transaction)) :
    context.catalog.shards = [shard] ∧ transaction.transactionId = request.transactionId ∧
      ∃ vertex, transaction.mutations = [.putVertex vertex] := by
  unfold createCommand at h
  split at h
  · next shard' hshards =>
    split_ifs at h
    obtain ⟨transaction', htransaction, hpair⟩ := Result.bind_eq_ok.mp h
    cases hpair
    refine ⟨hshards, ?_⟩
    unfold createTransaction at htransaction
    split_ifs at htransaction
    split at htransaction
    · dsimp only at htransaction
      split at htransaction
      · cases htransaction
      · obtain ⟨vertex, -, hnew⟩ := Result.bind_eq_ok.mp htransaction
        obtain ⟨hmutations, hid⟩ := mutations_of_new (Result.mapError_eq_ok.mp hnew)
        exact ⟨hid, vertex, hmutations⟩
    · cases htransaction
  · cases h

end Gateway

/-! ## The Data node -/

section Data

variable [Blake3]
variable {transaction : CommitSingleShardTransaction}

/-- The replica of a shard, and the last commit time its node has given out. -/
structure DataNode where
  machine : ShardStateMachine
  lastSnapshotCommitTime : TransactionTime

/-- The next time, up to the greatest one. -/
def saturatingNext (time : TransactionTime) : TransactionTime :=
  ⟨min (time.get + 1) (2 ^ 63 - 1), by omega⟩

/-- The time of the clock in microseconds, up to the greatest one. -/
def clockTime (now : ℕ) : TransactionTime := ⟨min now (2 ^ 63 - 1), by omega⟩

def nextSnapshotCommitTime (now : ℕ) (last startTime : TransactionTime) : TransactionTime :=
  max (max (clockTime now) (saturatingNext startTime))
    (saturatingNext last)

/-- The commit time of a transaction that the shard has committed before. -/
def existingSnapshotCommitTime (store : ReplicaStore) (transaction : CommitSingleShardTransaction) :
    Except String (Option TransactionTime) :=
  match store.replicaMetadata
      (ReservedKey.singleShardTransaction transaction.transactionId).name with
  | none => .ok none
  | some metadata => do
    let receipt ← (decodeSingleShardTransactionMetadata metadata).mapError ShardError.message
    if receipt.commandId ≠ transaction.header.commandId ∨
        receipt.startTime ≠ transaction.startTime ∨
        receipt.snapshotAppliedIndex ≠ transaction.snapshotAppliedIndex ∨
        receipt.requestDigest ≠ transaction.requestDigest then
      .error "snapshot transaction ID is already bound to a different command"
    else .ok (some receipt.commitTime)

def stampMutation (commitTime : TransactionTime) :
    Storage.LogicalMutation → Except Storage.StorageError Storage.LogicalMutation
  | .putVertex vertex => .ok (.putVertex { vertex with transactionTime := commitTime })
  | _ => .error (.invalidMutation "snapshot commit currently supports vertex mutations only")

def stampSnapshotTransaction (transaction : CommitSingleShardTransaction)
    (commitTime : TransactionTime) : Except String CommitSingleShardTransaction := do
  let mutations ← (transaction.mutations.mapM (stampMutation commitTime)).mapError
    Storage.StorageError.message
  (CommitSingleShardTransaction.new transaction.header transaction.transactionId
    transaction.startTime transaction.snapshotAppliedIndex transaction.requestDigest
    mutations).mapError ShardError.message

/-- What the Data node answers to a transaction that was committed. -/
structure SnapshotReceipt where
  index : ℕ
  replayed : Bool
  commitTime : TransactionTime
deriving DecidableEq

/-- The replica is the one the request is addressed to. -/
def hostsRoute (binding route : ReplicaBinding) : Bool :=
  decide (binding.clusterId = route.clusterId ∧ binding.graphId = route.graphId ∧
    binding.shardId = route.shardId ∧ binding.placementEpoch = route.placementEpoch ∧
    binding.backendGeneration = route.backendGeneration)

/-- Has the shard apply a stamped transaction at the next index of its log. -/
def DataNode.applyStamped (node : DataNode) (term : ℕ) (transaction : CommitSingleShardTransaction)
    (commitTime : TransactionTime) : Except String SnapshotReceipt × DataNode :=
  match node.machine.applyCommitted term (node.machine.appliedIndex + 1)
      (.commitSingleShardTransaction transaction) with
  | (.error error, machine) => (.error error.message, { node with machine })
  | (.ok outcome, machine) =>
    if outcome.rejection.isSome then
      (.error "transaction command was rejected", { node with machine })
    else (.ok ⟨outcome.appliedIndex, outcome.replayed, commitTime⟩, { node with machine })

/-- Commits a transaction at the clock time `now`.  A commit time that was given out counts
also when the transaction fails. -/
def DataNode.applyTransaction (node : DataNode) (now term : ℕ) (route : ReplicaBinding)
    (transaction : CommitSingleShardTransaction) : Except String SnapshotReceipt × DataNode :=
  if transaction.header.placementEpoch ≠ route.placementEpoch ∨
      transaction.header.backendGeneration ≠ route.backendGeneration then
    (.error "transaction command and request fence differ", node)
  else if hostsRoute node.machine.binding route = false then
    (.error ShardError.replicaNotFound.message, node)
  else
    match existingSnapshotCommitTime node.machine.stateStore transaction with
    | .error error => (.error error, node)
    | .ok existing =>
      let commitTime := existing.getD
        (nextSnapshotCommitTime now node.lastSnapshotCommitTime transaction.startTime)
      let node := { node with
        lastSnapshotCommitTime :=
          if existing.isSome then node.lastSnapshotCommitTime else commitTime }
      match stampSnapshotTransaction transaction commitTime with
      | .error error => (.error error, node)
      | .ok stamped => node.applyStamped term stamped commitTime

/-! ## What a transaction does to the store -/

omit [Blake3] in
/-- A transaction is accepted as new only if the shard keeps no receipt of it. -/
theorem acceptSingleShardTransaction_eq_ok {machine : ShardStateMachine}
    {transition : IntentTransition}
    (h : machine.acceptSingleShardTransaction transaction = .ok transition) :
    transition = .replay ∨ (transition = .none ∧ machine.stateStore.replicaMetadata
      (ReservedKey.singleShardTransaction transaction.transactionId).name = none) := by
  obtain ⟨durable, hdurable, hrest⟩ := Result.bind_eq_ok.mp h
  cases durable with
  | true =>
    cases hrest
    exact .inl rfl
  | false =>
    obtain ⟨-, -, hnone⟩ := Result.bind_eq_ok.mp hrest
    cases hnone
    refine .inr ⟨rfl, ?_⟩
    simp only [singleShardTransactionIsDurable] at hdurable
    split at hdurable
    · next hmetadata => exact hmetadata
    · obtain ⟨receipt, -, hsame⟩ := Result.bind_eq_ok.mp hdurable
      split_ifs at hsame
      cases hsame

def receiptRecord (transaction : CommitSingleShardTransaction) : Storage.LogicalMutation :=
  .putReplicaMetadata (singleShardTransactionMetadata transaction)

/-- A one-phase transaction at the next index changes the graph only if the shard kept no
receipt of it, and is then reported as new. -/
theorem applyCommitted_transaction (machine : ShardStateMachine) (term : ℕ)
    (transaction : CommitSingleShardTransaction) :
    let result := machine.applyCommitted term (machine.appliedIndex + 1)
      (.commitSingleShardTransaction transaction)
    Uncommitted machine.stateStore result ∨
      (machine.stateStore.replicaMetadata
          (ReservedKey.singleShardTransaction transaction.transactionId).name = none ∧
        result.2.stateStore = machine.stateStore.push ⟨term, transaction.header.commandId,
          transaction.mutations ++ [receiptRecord transaction]⟩ ∧
        ∃ outcome, result.1 = .ok outcome ∧ outcome.rejection = none ∧
          outcome.replayed = false) := by
  intro result
  simp only [result, applyCommitted]
  split
  · exact .inl (uncommitted_reject _ _ _ _ _ _)
  · simp only [applyValidated, ShardCommand.isTwoPhase, Bool.false_eq_true,
      and_false, if_false, validateTransactionAcceptance]
    split
    · exact .inl (uncommitted_reject _ _ _ _ _ _)
    · next transition haccept =>
      simp only [applyAccepted, recordsOf]
      split
      · exact .inl ⟨.inl rfl, fun outcome h => by cases h⟩
      · next receipt store hwrite =>
        rcases acceptSingleShardTransaction_eq_ok haccept with rfl | ⟨rfl, hnone⟩
        · have hreplay : machine.logicalReplay (machine.appliedIndex + 1) .replay = true := by
            simp [logicalReplay]
          rw [hreplay] at hwrite
          refine .inl ⟨?_, fun outcome h _ => ?_⟩
          · rcases (writeBatch_eq_ok hwrite).2 with ⟨-, -, rfl⟩ | ⟨-, -, rfl⟩
            · exact .inl rfl
            · exact .inr ⟨_, _, _, rfl⟩
          · cases h
            simp [hreplay]
        · rcases (writeBatch_eq_ok hwrite).2 with ⟨hreplayed, -, rfl⟩ | ⟨hfresh, -, rfl⟩
          · exact .inl ⟨.inl rfl, fun outcome h _ => by cases h; simp [hreplayed]⟩
          · exact .inr ⟨hnone, rfl, _, rfl, rfl, by simp [hfresh, logicalReplay]⟩

omit [Blake3] in
/-- Stamping changes the commit time of the vertex only. -/
theorem stampSnapshotTransaction_eq_ok {stamped : CommitSingleShardTransaction}
    {commitTime : TransactionTime} {vertex : VertexVersion}
    (hvertex : transaction.mutations = [.putVertex vertex])
    (h : stampSnapshotTransaction transaction commitTime = .ok stamped) :
    stamped.mutations = [.putVertex { vertex with transactionTime := commitTime }] ∧
      stamped.transactionId = transaction.transactionId := by
  obtain ⟨mutations, hmutations, hnew⟩ := Result.bind_eq_ok.mp h
  have hstamped := Result.mapError_eq_ok.mp hmutations
  rw [hvertex] at hstamped
  cases hstamped
  exact mutations_of_new (Result.mapError_eq_ok.mp hnew)

/-- A transaction changes nothing of the graph, and is then refused or a replay; or the shard
kept no receipt of it and its mutations are written. -/
theorem applyStamped_cases (node : DataNode) (term : ℕ)
    (transaction : CommitSingleShardTransaction) (commitTime : TransactionTime) :
    let result := node.applyStamped term transaction commitTime
    (KeepsGraph node.machine.stateStore result.2.machine.stateStore ∧
        ∀ receipt, result.1 = .ok receipt → receipt.replayed = true) ∨
      (node.machine.stateStore.replicaMetadata
          (ReservedKey.singleShardTransaction transaction.transactionId).name = none ∧
        result.2.machine.stateStore = node.machine.stateStore.push
          ⟨term, transaction.header.commandId,
            transaction.mutations ++ [receiptRecord transaction]⟩ ∧
        ∃ receipt, result.1 = .ok receipt ∧ receipt.replayed = false) := by
  intro result
  have happlied := applyCommitted_transaction node.machine term transaction
  simp only [result, DataNode.applyStamped]
  generalize node.machine.applyCommitted term (node.machine.appliedIndex + 1)
    (.commitSingleShardTransaction transaction) = applied at happlied ⊢
  obtain ⟨outcome, machine⟩ := applied
  rcases happlied with ⟨hkeeps, hreplayed⟩ | ⟨hnone, hstore, outcome', rfl, hrejection, hfresh⟩
  · left
    cases outcome with
    | error => exact ⟨hkeeps, fun receipt h => by cases h⟩
    | ok outcome =>
      dsimp only
      split_ifs with hrejection
      · exact ⟨hkeeps, fun receipt h => by cases h⟩
      · refine ⟨hkeeps, fun receipt h => ?_⟩
        cases h
        exact hreplayed outcome rfl (by simpa using hrejection)
  · right
    simp only [hrejection, Option.isSome_none, Bool.false_eq_true, if_false]
    exact ⟨hnone, hstore, _, rfl, hfresh⟩

/-- A transaction of one vertex changes no vertex, and is then refused or a replay; or the
shard kept no receipt of it and the vertex is put. -/
theorem applyTransaction_cases (node : DataNode) (now term : ℕ) (route : ReplicaBinding)
    {vertex : VertexVersion} (hvertex : transaction.mutations = [.putVertex vertex]) :
    let result := node.applyTransaction now term route transaction
    (KeepsGraph node.machine.stateStore result.2.machine.stateStore ∧
        ∀ receipt, result.1 = .ok receipt → receipt.replayed = true) ∨
      (node.machine.stateStore.replicaMetadata
          (ReservedKey.singleShardTransaction transaction.transactionId).name = none ∧
        (∃ commandId commitTime metadata,
          result.2.machine.stateStore = node.machine.stateStore.push ⟨term, commandId,
            [.putVertex { vertex with transactionTime := commitTime },
              .putReplicaMetadata metadata]⟩) ∧
        ∃ receipt, result.1 = .ok receipt ∧ receipt.replayed = false) := by
  intro result
  simp only [result, DataNode.applyTransaction]
  split_ifs
  · exact .inl ⟨.inl rfl, fun receipt h => by cases h⟩
  · exact .inl ⟨.inl rfl, fun receipt h => by cases h⟩
  · split
    · exact .inl ⟨.inl rfl, fun receipt h => by cases h⟩
    · split
      · exact .inl ⟨.inl rfl, fun receipt h => by cases h⟩
      · next stamped hstamp =>
        obtain ⟨hmutations, hid⟩ := stampSnapshotTransaction_eq_ok hvertex hstamp
        refine (applyStamped_cases _ term stamped _).imp_right ?_
        rintro ⟨hnone, hstore, hreceipt⟩
        rw [hmutations] at hstore
        rw [hid] at hnone
        exact ⟨hnone, ⟨_, _, _, hstore⟩, hreceipt⟩

end Data

end DtgProxy.Execution

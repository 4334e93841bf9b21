import DtgProxy.Execution.ProcessCreate
import DtgProxy.Plan.Termination
import DtgProxy.Storage.VisibleRows

/-! # The scan bound of a Gateway

A Gateway counts the vertices it creates in the bound of its scans.  It counts the answers
that report a new vertex, so a vertex whose answer was lost is not counted, and a retry that
is answered as a replay is not either.
-/
namespace DtgProxy.Execution

open Kernel Lib Plan Shard Storage

/-- A store that keeps the graph shows no more vertices. -/
theorem length_visibleRows_le_of_keeps {store store' : ReplicaStore} (h : KeepsGraph store store')
    (order : ReadOrder) (validAt : Int64) (time : TransactionTime) :
    (vertices.visibleRows (order.history store') validAt time).length ≤
      (vertices.visibleRows (order.history store) validAt time).length := by
  rcases h with rfl | ⟨term, commandId, metadata, rfl⟩
  · exact le_rfl
  · refine ElementKind.length_visibleRows_push_le verticesKeyed order store _ [] ?_ validAt time
    intro mutation hmutation id htouched
    rw [List.mem_singleton.mp hmutation] at htouched
    cases htouched

/-- A batch that puts one vertex shows at most one more. -/
theorem length_visibleRows_le_of_put (store : ReplicaStore) (term : ℕ) (commandId : CommandId)
    (vertex : VertexVersion) (metadata : ReplicaMetadata) (order : ReadOrder) (validAt : Int64)
    (time : TransactionTime) :
    (vertices.visibleRows (order.history (store.push ⟨term, commandId,
        [.putVertex vertex, .putReplicaMetadata metadata]⟩)) validAt time).length ≤
      (vertices.visibleRows (order.history store) validAt time).length + 1 := by
  refine ElementKind.length_visibleRows_push_le verticesKeyed order store _ [vertex.id] ?_
    validAt time
  intro mutation hmutation id htouched
  rcases List.mem_pair.mp hmutation with rfl | rfl
  · cases htouched
    exact List.mem_singleton_self _
  · cases htouched

/-! ## What the bound covers -/

section

variable [Blake3]

/-- A Gateway and the replica of the shard it writes to. -/
structure CreateState where
  context : PlanningContext
  node : DataNode

namespace CreateState

/-- The vertices of the store at a transaction time, as the provider reads them. -/
def verticesAt (state : CreateState) (order : ReadOrder) (time : TransactionTime) :
    List VertexVersion :=
  vertices.visibleRows (order.history state.node.machine.stateStore)
    state.context.snapshotRequirements.validAt time

/-- The vertices that a query sees. -/
def visibleVertices (state : CreateState) (order : ReadOrder) : List VertexVersion :=
  state.verticesAt order state.context.snapshotRequirements.transactionTime

def BoundCovers (state : CreateState) (order : ReadOrder) : Prop :=
  ∀ bound ∈ state.context.logicalScanBound, (state.visibleVertices order).length ≤ bound.toNat

/-- The bound also covers what becomes visible at later times. -/
def BoundCoversLater (state : CreateState) (order : ReadOrder) : Prop :=
  ∀ time, state.context.snapshotRequirements.transactionTime ≤ time →
    ∀ bound ∈ state.context.logicalScanBound, (state.verticesAt order time).length ≤ bound.toNat

/-- A scan that is planned without a limit returns all visible vertices in its one page. -/
def ScansComplete (state : CreateState) (order : ReadOrder) : Prop :=
  ∀ plan input bound,
    (∀ node ∈ plan.nodes, ∀ limit, node.kind = .limit limit → limit.input ≠ input) →
    scanBound plan input state.context = .ok bound →
    vertices.page (state.visibleVertices order) bound.toNat =
      ⟨state.visibleVertices order, none⟩

variable {state : CreateState} {order : ReadOrder}

theorem boundCovers_of_later (h : state.BoundCoversLater order) : state.BoundCovers order :=
  h _ le_rfl

/-- A scan without a limit is planned with the bound of the context. -/
theorem scansComplete_of_covers (h : state.BoundCovers order) : state.ScansComplete order := by
  intro plan input bound hunlimited hbound
  have hcontext : bound ∈ state.context.logicalScanBound := by
    simp only [scanBound] at hbound
    split at hbound
    · next found hmin =>
      cases hbound
      rcases List.mem_append.mp (List.min?_mem hmin) with hlimit | hcontext
      · obtain ⟨node, hnode, hfound⟩ := List.mem_filterMap.mp hlimit
        split at hfound
        · next limit hkind =>
          rw [if_neg (hunlimited node hnode limit hkind)] at hfound
          cases hfound
        · cases hfound
      · exact Option.mem_toList.mp hcontext
    · cases hbound
  have hle := h bound hcontext
  rw [ElementKind.page, List.take_of_length_le hle, if_neg (not_lt.mpr hle)]

/-- The bound keeps covering a later snapshot when it grows by as much as the vertices do. -/
theorem BoundCoversLater.mono {state' : CreateState} (h : state.BoundCoversLater order)
    (added : ℕ)
    (hvalid : state'.context.snapshotRequirements.validAt =
      state.context.snapshotRequirements.validAt)
    (htime : state.context.snapshotRequirements.transactionTime ≤
      state'.context.snapshotRequirements.transactionTime)
    (hbound : ∀ bound' ∈ state'.context.logicalScanBound,
      ∃ bound ∈ state.context.logicalScanBound, bound.toNat + added ≤ bound'.toNat)
    (hvertices : ∀ time, (vertices.visibleRows
        (order.history state'.node.machine.stateStore)
        state.context.snapshotRequirements.validAt time).length ≤
      (state.verticesAt order time).length + added) :
    state'.BoundCoversLater order := by
  intro time hle bound' hbound'
  obtain ⟨bound, hmem, hadded⟩ := hbound bound' hbound'
  have hold := h time (htime.trans hle) bound hmem
  have hnew := hvertices time
  rw [← hvalid] at hnew
  exact hnew.trans (by omega)

end CreateState

end

/-! ## Runs of creates -/

section

variable [Blake3] [Sha256]

/-- A request, with the clock and the term of the Data node when it arrives, and whether the
answer gets back to the Gateway. -/
structure CreateCall where
  request : CreateRequest
  now : ℕ
  term : ℕ
  delivered : Bool

inductive CreateResult where
  | acknowledged
  | refused (error : GatewayExecutionError)
  | failed (message : String)
  | lost
deriving DecidableEq

/-- What the Gateway makes of an answer. -/
def CreateState.answer (state : CreateState) (shard : CatalogShard)
    (receipt : SnapshotReceipt) : CreateResult × CreateState :=
  match advanceProcessSnapshot state.context
      ⟨shard.binding, receipt.index, receipt.commitTime, receipt.replayed⟩ (!receipt.replayed) with
  | .error error => (.refused error, state)
  | .ok context => (.acknowledged, { state with context })

/-- One `CREATE`, as `execute_statement` runs it. -/
def CreateState.create (state : CreateState) (call : CreateCall) : CreateResult × CreateState :=
  match createCommand state.context call.request with
  | .error error => (.refused error, state)
  | .ok (shard, transaction) =>
    let applied := state.node.applyTransaction call.now call.term shard.binding transaction
    let state := { state with node := applied.2 }
    if call.delivered = false then (.lost, state)
    else
      match applied.1 with
      | .error message => (.failed message, state)
      | .ok receipt => state.answer shard receipt

def runCreates (state : CreateState) (calls : List CreateCall) : CreateState :=
  calls.foldl (fun state call => (state.create call).2) state

theorem runCreates_concat (state : CreateState) (calls : List CreateCall) (call : CreateCall) :
    runCreates state (calls ++ [call]) = ((runCreates state calls).create call).2 := by
  simp [runCreates, List.foldl_append]

/-- The condition on a request: if the shard has no receipt of its transaction yet, then its
answer arrives and the bound can still grow. -/
def CreateCall.Counted (state : CreateState) (call : CreateCall) : Prop :=
  state.node.machine.stateStore.replicaMetadata
      (ReservedKey.singleShardTransaction call.request.transactionId).name = none →
    call.delivered = true ∧
      ∀ bound ∈ state.context.logicalScanBound, bound.toNat + 1 < 2 ^ 32

omit [Sha256] in
/-- What an answer does to the context, on the shard the request was routed to. -/
theorem answer_cases (state : CreateState) {shard : CatalogShard}
    (hshards : state.context.catalog.shards = [shard]) (receipt : SnapshotReceipt) :
    ∃ context, (state.answer shard receipt).2 = { state with context } ∧
      Advanced state.context ⟨shard.binding, receipt.index, receipt.commitTime, receipt.replayed⟩
        (!receipt.replayed) shard context := by
  obtain ⟨context, hcontext, hadvanced⟩ := advanceProcessSnapshot_eq state.context
    ⟨shard.binding, receipt.index, receipt.commitTime, receipt.replayed⟩ (!receipt.replayed)
    hshards rfl
  exact ⟨context, by rw [CreateState.answer, hcontext], hadvanced⟩

variable {order : ReadOrder}

omit [Sha256] in
/-- A replay of what the shard holds keeps what the bound covers. -/
theorem boundCoversLater_of_keeps {state state' : CreateState} (h : state.BoundCoversLater order)
    (hkeeps : KeepsGraph state.node.machine.stateStore state'.node.machine.stateStore)
    (hvalid : state'.context.snapshotRequirements.validAt =
      state.context.snapshotRequirements.validAt)
    (htime : state.context.snapshotRequirements.transactionTime ≤
      state'.context.snapshotRequirements.transactionTime)
    (hbound : state'.context.logicalScanBound = state.context.logicalScanBound) :
    state'.BoundCoversLater order :=
  h.mono 0 hvalid htime (fun bound hmem => ⟨bound, hbound ▸ hmem, le_rfl⟩)
    fun time => length_visibleRows_le_of_keeps hkeeps order _ time

/-- One create keeps what the bound covers. -/
theorem boundCoversLater_create {state : CreateState} {call : CreateCall}
    (h : state.BoundCoversLater order) (hcounted : call.Counted state) :
    (state.create call).2.BoundCoversLater order := by
  unfold CreateState.create
  split
  · exact h
  · next shard transaction hcommand =>
    obtain ⟨hshards, hid, vertex, hvertex⟩ := createCommand_eq_ok hcommand
    have hcases := applyTransaction_cases state.node call.now call.term shard.binding hvertex
    dsimp only at hcases ⊢
    generalize state.node.applyTransaction call.now call.term shard.binding transaction = applied
      at hcases ⊢
    obtain ⟨reply, node⟩ := applied
    rcases hcases with ⟨hkeeps, hreplay⟩ | ⟨hnone, ⟨commandId, time, metadata, hput⟩, hreceipt⟩
    · have hsame : CreateState.BoundCoversLater ⟨state.context, node⟩ order :=
        boundCoversLater_of_keeps h hkeeps rfl le_rfl rfl
      split_ifs with hlost
      · exact hsame
      · split
        · exact hsame
        · next receipt hreply =>
          obtain ⟨context, hanswer, hadvanced⟩ :=
            answer_cases ⟨state.context, node⟩ hshards receipt
          rw [hanswer]
          refine boundCoversLater_of_keeps h hkeeps hadvanced.validAt ?_ ?_
          · exact hadvanced.transactionTime ▸ le_max_left _ _
          · rw [hadvanced.bound, hreplay receipt hreply]
            simp [advancedBound]
    · obtain ⟨hdelivered, hroom⟩ := hcounted (hid ▸ hnone)
      obtain ⟨receipt, rfl, hfresh⟩ := hreceipt
      rw [if_neg (by simp [hdelivered])]
      obtain ⟨context, hanswer, hadvanced⟩ := answer_cases ⟨state.context, node⟩ hshards receipt
      rw [hanswer]
      have hgrows : ∀ bound' ∈ context.logicalScanBound,
          ∃ bound ∈ state.context.logicalScanBound, bound.toNat + 1 ≤ bound'.toNat := by
        intro bound' hbound'
        rw [hadvanced.bound, hfresh, advancedBound] at hbound'
        obtain ⟨bound, hbound, rfl⟩ := Option.map_eq_some_iff.mp hbound'
        have hlt := hroom bound hbound
        refine ⟨bound, hbound, ?_⟩
        simp only [Bool.not_false, if_true, toNat_incrementedBound]
        omega
      refine h.mono 1 hadvanced.validAt (hadvanced.transactionTime ▸ le_max_left _ _) hgrows
        fun time => ?_
      rw [hput]
      exact length_visibleRows_le_of_put _ _ _ _ _ _ _ _

/-- Starting with a bound that covers what the store shows now and later, the bound covers the
visible vertices in every state that is reached while each request that is new to the shard
gets its answer. -/
theorem scan_bound_covers (order : ReadOrder) (state : CreateState) (calls : List CreateCall)
    (hstart : state.BoundCoversLater order)
    (hcounted : ∀ before call after, calls = before ++ call :: after →
      call.Counted (runCreates state before)) :
    ∀ before after, calls = before ++ after →
      (runCreates state before).BoundCovers order ∧
        (runCreates state before).ScansComplete order := by
  have hlater : ∀ before after, calls = before ++ after →
      (runCreates state before).BoundCoversLater order := by
    intro before
    induction before using List.reverseRecOn with
    | nil => exact fun after _ => hstart
    | append_singleton before call ih =>
      intro after hcalls
      have hbefore : calls = before ++ call :: after := by simpa using hcalls
      rw [runCreates_concat]
      exact boundCoversLater_create (ih _ hbefore) (hcounted _ call after hbefore)
  intro before after hcalls
  have hcovers := CreateState.boundCovers_of_later (hlater before after hcalls)
  exact ⟨hcovers, CreateState.scansComplete_of_covers hcovers⟩

end

/-! ## A request whose answer is lost -/

/-- A computable hash, for evaluating the model on fixed inputs. -/
@[reducible] def foldSha256 : Sha256 := ⟨foldHash.hash⟩

/-- A store of one vertex, which was committed at time 1. -/
def oneVertexStore : ReplicaStore :=
  ⟨sampleShard.binding, [⟨1, 1, [.putVertex (.plain 1 ⟨0, i64Max, by decide⟩ 1)]⟩]⟩

/-- The Gateway reads at time 1, and its bound is the one vertex it sees. -/
def countedState : @CreateState foldHash :=
  letI := foldHash
  { context := { sampleContext with
      snapshotRequirements := ⟨1, 0, true⟩
      logicalScanBound := some 1
      bound_ne_zero := by decide }
    node := ⟨⟨sampleShard.binding, oneVertexStore, 1, none, ∅, ∅⟩, 0⟩ }

/-- `CREATE (n:Person) VALID FROM 0`. -/
def sampleCreate : CreateRequest :=
  ⟨7, ⟨none, [.createVertex "n" ["Person"] ∅ (.literal 0)]⟩, ∅⟩

def lostCall : CreateCall := ⟨sampleCreate, 5, 1, false⟩

def answeredCall : CreateCall := ⟨sampleCreate, 5, 1, true⟩

/-- One vertex is visible at every time from the snapshot of the Gateway on. -/
theorem boundCoversLater_countedState :
    @CreateState.BoundCoversLater foldHash countedState .byKey := by
  intro time _ bound hbound
  cases hbound
  have hids : (vertices.ids (ReadOrder.history .byKey oneVertexStore)).length = 1 := by
    decide +kernel
  exact (List.length_filterMap_le _ _).trans hids.le

def secondCall : CreateCall := ⟨{ sampleCreate with requestId := 2 ^ 96 }, 5, 1, true⟩

/-- Two creates are answered; then a retry of the first gets lost. -/
def sampleCreates : List CreateCall := [answeredCall, secondCall, lostCall]

theorem scan_bound_covers_answered :
    let := foldHash
    let := foldSha256
    (∀ before after, sampleCreates = before ++ after →
        (runCreates countedState before).BoundCovers .byKey ∧
          (runCreates countedState before).ScansComplete .byKey) ∧
      ((runCreates countedState sampleCreates).visibleVertices .byKey).length = 3 := by
  intro inst inst'
  refine ⟨scan_bound_covers .byKey countedState sampleCreates boundCoversLater_countedState ?_,
    by decide +kernel⟩
  have hbound : (runCreates countedState [answeredCall]).context.logicalScanBound = some 2 := by
    decide +kernel
  have hreceipt : ((runCreates countedState
      [answeredCall, secondCall]).node.machine.stateStore.replicaMetadata
        (ReservedKey.singleShardTransaction lostCall.request.transactionId).name).isSome = true := by
    decide +kernel
  intro before call after hcalls
  have hlength := congrArg List.length hcalls
  rcases before with _ | ⟨first, _ | ⟨second, _ | ⟨third, before⟩⟩⟩
  · obtain ⟨rfl, -⟩ := List.cons.inj hcalls
    refine fun _ => ⟨rfl, fun bound hmem => ?_⟩
    cases hmem
    decide
  · obtain ⟨rfl, hrest⟩ := List.cons.inj hcalls
    obtain ⟨rfl, -⟩ := List.cons.inj hrest
    refine fun _ => ⟨rfl, fun bound hmem => ?_⟩
    rw [hbound] at hmem
    cases hmem
    decide
  · obtain ⟨rfl, hrest⟩ := List.cons.inj hcalls
    obtain ⟨rfl, hlast⟩ := List.cons.inj hrest
    obtain ⟨rfl, -⟩ := List.cons.inj hlast
    intro hnone
    rw [hnone] at hreceipt
    cases hreceipt
  · simp [sampleCreates] at hlength

/-- The answer to a request is lost and its retry is acknowledged.  Then two vertices are
visible and the bound is still one. -/
theorem retried_create_not_counted :
    let := foldHash
    let := foldSha256
    countedState.BoundCovers .byKey ∧
      ((runCreates countedState [lostCall]).create answeredCall).1 = .acknowledged ∧
      ((runCreates countedState [lostCall, answeredCall]).visibleVertices .byKey).length = 2 ∧
      (runCreates countedState [lostCall, answeredCall]).context.logicalScanBound = some 1 := by
  intro inst inst'
  refine ⟨CreateState.boundCovers_of_later boundCoversLater_countedState, ?_, ?_, ?_⟩
  · decide +kernel
  · decide +kernel
  · decide +kernel

end DtgProxy.Execution

import DtgProxy.Lib.Result
import DtgProxy.Storage.Mutation
import DtgProxy.Transaction.Types

/-! # The conflict detector

Staged mutations and committed ones are compared as interval writes.  A conflict is a
committed write of the same identity, later than the start, whose extent meets the
staged one.
-/
namespace DtgProxy.Transaction

open Kernel Lib DtgProxy.Storage

inductive EntityIdentity where
  | vertex (id : VertexId)
  | edge (id : EdgeId)
deriving DecidableEq, Repr

inductive WriteExtent where
  | interval (valid : ValidInterval)
  | completeIdentity
deriving DecidableEq, Repr

structure IntervalWrite where
  identity : EntityIdentity
  extent : WriteExtent
  transactionTime : TransactionTime
deriving DecidableEq, Repr

def extentsOverlap : WriteExtent → WriteExtent → Bool
  | .interval left, .interval right => left.overlaps right
  | .completeIdentity, _ => true
  | _, .completeIdentity => true

def detectConflict (staged : IntervalWrite) (committed : List IntervalWrite) :
    Except TxnError Unit :=
  if committed.any fun candidate =>
      decide (candidate.identity = staged.identity) &&
        decide (staged.transactionTime < candidate.transactionTime) &&
        extentsOverlap candidate.extent staged.extent then
    .error .writeConflict
  else .ok ()

def writeFromMutation (mutation : LogicalMutation) (transactionTime : Option TransactionTime) :
    Option IntervalWrite :=
  match mutation with
  | .putVertex vertex => some ⟨.vertex vertex.id, .interval vertex.validTime,
      transactionTime.getD vertex.transactionTime⟩
  | .deleteVertex vertex => some ⟨.vertex vertex.id, .completeIdentity,
      transactionTime.getD vertex.transactionTime⟩
  | .putEdge edge => some ⟨.edge edge.id, .interval edge.validTime,
      transactionTime.getD edge.transactionTime⟩
  | .deleteEdge edge => some ⟨.edge edge.id, .completeIdentity,
      transactionTime.getD edge.transactionTime⟩
  | .putTransaction _ | .putReplicaMetadata _ => none

def detectMutationConflicts (staged committed : List LogicalMutation)
    (startTime : TransactionTime) : Except TxnError Unit :=
  let committed := committed.filterMap (writeFromMutation · none)
  staged.foldlM (fun _ mutation =>
    match writeFromMutation mutation (some startTime) with
    | some staged => detectConflict staged committed
    | none => .ok ()) ()

/-! ## What is detected -/

/-- The shard's identities and extents as the detector has them. -/
def entity : GraphIdentity → EntityIdentity
  | .vertex id => .vertex id
  | .edge id => .edge id

def extent : Storage.WriteExtent → WriteExtent
  | .interval valid => .interval valid
  | .completeIdentity => .completeIdentity

theorem entity_inj {a b : GraphIdentity} : entity a = entity b ↔ a = b := by
  cases a <;> cases b <;> simp [entity]

theorem extentsOverlap_extent (a b : Storage.WriteExtent) :
    extentsOverlap (extent a) (extent b) = b.meets a := by
  rw [Storage.WriteExtent.meets_comm]
  cases a <;> cases b <;> rfl

theorem writeFromMutation_eq_some {mutation : LogicalMutation} {time : Option TransactionTime}
    {write : IntervalWrite} :
    writeFromMutation mutation time = some write ↔ ∃ i e own, graphWrite mutation = some (i, e) ∧
      graphMutationTime mutation = some own ∧ write = ⟨entity i, extent e, time.getD own⟩ := by
  cases mutation <;>
    simp [writeFromMutation, graphWrite, graphMutationTime, entity, extent, eq_comm]

theorem detectConflict_eq_ok {staged : IntervalWrite} {committed : List IntervalWrite} :
    detectConflict staged committed = .ok () ↔ ∀ candidate ∈ committed,
      candidate.identity = staged.identity → staged.transactionTime < candidate.transactionTime →
        extentsOverlap candidate.extent staged.extent = false := by
  unfold detectConflict
  split_ifs with h
  · refine ⟨fun hok => (nomatch hok), fun hfree => ?_⟩
    obtain ⟨candidate, hmem, hconflict⟩ := List.any_eq_true.mp h
    simp only [Bool.and_eq_true, decide_eq_true_eq] at hconflict
    rw [hfree candidate hmem hconflict.1.1 hconflict.1.2] at hconflict
    cases hconflict.2
  · simpa using h

variable {startTime : TransactionTime}

/-- Nothing is detected when no later change meets the staged writes. -/
theorem detectMutationConflicts_eq_ok {staged committed : List LogicalMutation} :
    detectMutationConflicts staged committed startTime = .ok () ↔
      ∀ change ∈ committed, ∀ time, graphMutationTime change = some time → startTime < time →
        mutationsConflict staged [change] = false := by
  rw [detectMutationConflicts, Result.foldlM_visit_eq_ok]
  constructor
  · intro h change hchange time htime hlt
    rw [← Bool.not_eq_true, mutationsConflict_iff]
    rintro ⟨mutation, hmutation, _, hmem, i, e, f, hwrite, hcommitted, hmeets⟩
    cases List.mem_singleton.mp hmem
    obtain ⟨own, hown⟩ : ∃ own, graphMutationTime mutation = some own := by
      cases mutation <;> simp_all [graphWrite, graphMutationTime]
    have hvisit := h mutation hmutation
    rw [writeFromMutation_eq_some.mpr ⟨i, e, own, hwrite, hown, rfl⟩] at hvisit
    have hfree := detectConflict_eq_ok.mp hvisit _ (List.mem_filterMap.mpr
      ⟨_, hchange, writeFromMutation_eq_some.mpr ⟨i, f, time, hcommitted, htime, rfl⟩⟩) rfl hlt
    rw [extentsOverlap_extent, hmeets] at hfree
    cases hfree
  · intro h mutation hmutation
    cases hstaged : writeFromMutation mutation (some startTime) with
    | none => rfl
    | some =>
      obtain ⟨i, e, own, hwrite, -, rfl⟩ := writeFromMutation_eq_some.mp hstaged
      refine detectConflict_eq_ok.mpr fun candidate hcandidate hidentity hlt => ?_
      obtain ⟨change, hchange, hcommitted⟩ := List.mem_filterMap.mp hcandidate
      obtain ⟨j, f, time, hother, htime, rfl⟩ := writeFromMutation_eq_some.mp hcommitted
      cases entity_inj.mp hidentity
      have hfree := h change hchange time htime hlt
      rw [← Bool.not_eq_true, mutationsConflict_iff] at hfree
      rw [extentsOverlap_extent, Bool.eq_false_iff]
      exact fun hmeets => hfree ⟨mutation, hmutation, change, List.mem_singleton_self _, i, e, f,
        hwrite, hother, hmeets⟩

theorem detectMutationConflicts_eq_error {staged committed : List LogicalMutation}
    {error : TxnError} (h : detectMutationConflicts staged committed startTime = .error error) :
    error = .writeConflict := by
  obtain ⟨mutation, -, hvisit⟩ := Result.exists_of_foldlM_visit_eq_error h
  split at hvisit
  · unfold detectConflict at hvisit
    split_ifs at hvisit
    cases hvisit
    rfl
  · cases hvisit

end DtgProxy.Transaction

import DtgProxy.Execution.CommittedOverlay
import DtgProxy.Execution.Gateway
import DtgProxy.Lib.Paging
import DtgProxy.Storage.FjallConsensus

/-! # Building and extending a snapshot CSR

A Data worker builds the rows of a snapshot by a scan over all edges.  When it has the rows
of an earlier index, it reads the changes since then, groups them by index and lets an
overlay follow them; it gives up, and the rows are built by a scan, whenever an index is
missing or a limit is exceeded.  The times of the read are those of the key.
-/
namespace DtgProxy.Execution

open Kernel Storage Lib Lib.Paging

def dataError (message : String) : GatewayExecutionError :=
  ⟨"DTG-EXECUTION-DATA-FRAGMENT", message, .never⟩

def maxSnapshotCsrBytesPerReplica : ℕ := 1024 * 1024
def snapshotCsrEdgePageSize : ℕ := 1024
def maxSnapshotCsrEdges : ℕ := 8 * 1024
def snapshotCsrOverlayChangePageSize : ℕ := 1024
def maxSnapshotCsrOverlayChanges : ℕ := 8 * 1024
def maxSnapshotCsrOverlayBytes : ℕ := 256 * 1024

/-- The pages of the edge scan.  There are no more pages than mutations. -/
def scanEdgePages (view : FjallStore.View) (key : SnapshotCsrKey) :
    Option (List (List EdgeVersion)) :=
  collect (fun after =>
    let page := view.scanEdges
      ⟨key.validAt, key.transactionTime, after, snapshotCsrEdgePageSize, by decide⟩
    ⟨page.rows, page.nextAfter⟩) (view.history.length + 1) none

def buildSnapshotCsr (view : FjallStore.View) (key : SnapshotCsrKey) :
    Except GatewayExecutionError (Option SnapshotCsr) :=
  match scanEdgePages view key with
  | none => .ok none
  | some pages =>
    if maxSnapshotCsrEdges < pages.flatten.length then .ok none
    else
      match SnapshotCsr.build key pages.flatten maxSnapshotCsrBytesPerReplica with
      | .ok csr => .ok (some csr)
      | .error e => if e.isInsufficientMemory then .ok none else .error (dataError e.message)

/-! ## From an earlier index -/

/-- The rows of the greatest earlier index that differ in nothing else. -/
def latestSnapshotCsrBase (cached : List SnapshotCsr) (key : SnapshotCsrKey) :
    Option SnapshotCsr :=
  (cached.filter fun csr =>
    csr.key.sameLineage key && decide (csr.key.appliedIndex < key.appliedIndex)).foldl
    (fun best csr =>
      match best with
      | none => some csr
      | some current =>
        if current.key.appliedIndex ≤ csr.key.appliedIndex then some csr else some current) none

/-- The operation of a mutation that is visible at the times of the key. -/
def visibleOperation (key : SnapshotCsrKey) :
    LogicalMutation → Option CommittedAdjacencyOperation
  | .putEdge edge =>
    if edge.transactionTime ≤ key.transactionTime ∧ edge.validTime.contains key.validAt = true then
      some (.add edge)
    else none
  | .deleteEdge tombstone =>
    if tombstone.transactionTime ≤ key.transactionTime then some (.remove tombstone) else none
  | _ => none

/-- The variables of the loop over the changes. -/
structure ExtensionState where
  overlay : CommittedCsrOverlay
  expectedIndex : ℕ
  operations : List CommittedAdjacencyOperation
  currentIndex : Option ℕ
  changeCount : ℕ

namespace ExtensionState

def applyIndex (s : ExtensionState) (key : SnapshotCsrKey) : Option CommittedCsrOverlay := do
  let delta ← (CommittedGraphDelta.new key s.operations).toOption
  (s.overlay.apply delta).toOption

def advance (s : ExtensionState) (key : SnapshotCsrKey) (index : ℕ) : Option ExtensionState :=
  match s.currentIndex with
  | some current =>
    if current = index then some s
    else if current ≠ s.expectedIndex then none
    else do
      let overlay ← s.applyIndex (key.withAppliedIndex current)
      if index ≠ s.expectedIndex + 1 then none
      else some ⟨overlay, s.expectedIndex + 1, [], some index, s.changeCount⟩
  | none =>
    if index ≠ s.expectedIndex then none else some { s with currentIndex := some index }

def visit (key : SnapshotCsrKey) (s : ExtensionState) (change : ChangeRecord) :
    Option ExtensionState :=
  let index := change.cursor.raftIndex
  if maxSnapshotCsrOverlayChanges < s.changeCount + 1 then none
  else if index < s.expectedIndex ∨ key.appliedIndex < index then none
  else do
    let s ← { s with changeCount := s.changeCount + 1 }.advance key index
    some { s with operations := s.operations ++ (visibleOperation key change.mutation).toList }

def finish (key : SnapshotCsrKey) (s : ExtensionState) : Option SnapshotCsr := do
  let current ← s.currentIndex
  if current ≠ s.expectedIndex ∨ current ≠ key.appliedIndex then none
  else
    let overlay ← s.applyIndex key
    (overlay.materialize key maxSnapshotCsrBytesPerReplica).toOption

end ExtensionState

def changePages (view : FjallStore.View) (key : SnapshotCsrKey) (after : ChangeCursor) :
    Option (List (List ChangeRecord)) :=
  collect (fun after =>
    let page := view.changesPage ⟨after, key.appliedIndex, snapshotCsrOverlayChangePageSize⟩
    ⟨page.rows, page.nextAfter⟩) (view.changes.length + 1) (some after)

def extendSnapshotCsr (cached : List SnapshotCsr) (view : FjallStore.View) (key : SnapshotCsrKey) :
    Option SnapshotCsr := do
  let base ← latestSnapshotCsrBase cached key
  let overlay ← (CommittedCsrOverlay.new base maxSnapshotCsrOverlayBytes).toOption
  let pages ← changePages view key ⟨overlay.coveredThrough, u64Max⟩
  let s ← pages.flatten.foldlM (ExtensionState.visit key)
    ⟨overlay, overlay.coveredThrough + 1, [], none, 0⟩
  s.finish key

/-! ## What an extension holds -/

theorem toOption_eq_some {ε α : Type} {x : Except ε α} {a : α} :
    x.toOption = some a ↔ x = .ok a := by
  cases x <;> simp [Except.toOption]

namespace ExtensionState

variable {s : ExtensionState} {key : SnapshotCsrKey} {visited : List ChangeRecord}
variable {base : SnapshotCsr} {s' : ExtensionState}

theorem applyIndex_eq_some {overlay : CommittedCsrOverlay} (h : s.applyIndex key = some overlay) :
    overlay.base = s.overlay.base ∧
      overlay.entries =
        s.operations.foldl (OverlayEntries.applyOperation s.overlay.base) s.overlay.entries := by
  obtain ⟨delta, hdelta, happly⟩ := Option.bind_eq_some_iff.mp h
  have hoperations : delta.operations = s.operations := by
    unfold CommittedGraphDelta.new at hdelta
    split_ifs at hdelta
    · cases hdelta
      rfl
    · cases hdelta
  rw [← hoperations]
  exact CommittedCsrOverlay.apply_eq_ok (toOption_eq_some.mp happly)

/-- The overlay and the operations gathered so far hold the changes that were visited, and
all of them come after the index of the base. -/
structure Follows (base : SnapshotCsr) (key : SnapshotCsrKey) (visited : List ChangeRecord)
    (s : ExtensionState) : Prop where
  base_eq : s.overlay.base = base
  pending : s.operations.foldl (OverlayEntries.applyOperation base) s.overlay.entries =
    (visited.filterMap fun change => visibleOperation key change.mutation).foldl
      (OverlayEntries.applyOperation base) .empty
  later : base.key.appliedIndex < s.expectedIndex
  indices : ∀ change ∈ visited, base.key.appliedIndex < change.cursor.raftIndex

theorem Follows.advance (h : Follows base key visited s) {index : ℕ}
    (hadvance : s.advance key index = some s') : Follows base key visited s' := by
  unfold ExtensionState.advance at hadvance
  split at hadvance
  · split_ifs at hadvance
    · cases hadvance
      exact h
    · obtain ⟨overlay, -, hnone⟩ := Option.bind_eq_some_iff.mp hadvance
      cases hnone
    · obtain ⟨overlay, hoverlay, hadvance⟩ := Option.bind_eq_some_iff.mp hadvance
      cases hadvance
      obtain ⟨hbase, hentries⟩ := applyIndex_eq_some hoverlay
      rw [h.base_eq] at hbase hentries
      exact ⟨hbase, by rw [← h.pending, ← hentries]; rfl, Nat.lt_succ_of_lt h.later, h.indices⟩
  · split_ifs at hadvance
    cases hadvance
    exact ⟨h.base_eq, h.pending, h.later, h.indices⟩

theorem Follows.visit (h : Follows base key visited s) {change : ChangeRecord}
    (hvisit : s.visit key change = some s') : Follows base key (visited ++ [change]) s' := by
  unfold ExtensionState.visit at hvisit
  simp only at hvisit
  split_ifs at hvisit with hcount hindex
  obtain ⟨moved, hmoved, hvisit⟩ := Option.bind_eq_some_iff.mp hvisit
  cases hvisit
  have hstart : Follows base key visited { s with changeCount := s.changeCount + 1 } :=
    ⟨h.base_eq, h.pending, h.later, h.indices⟩
  have hnext := hstart.advance hmoved
  refine ⟨hnext.base_eq, ?_, hnext.later, ?_⟩
  · rw [List.foldl_append, hnext.pending, List.filterMap_append, List.foldl_append]
    cases hoperation : visibleOperation key change.mutation with
    | none | some => simp [hoperation]
  · rw [List.forall_mem_append, List.forall_mem_singleton]
    have := h.later
    exact ⟨h.indices, by omega⟩

theorem Follows.foldlM (h : Follows base key visited s) (changes : List ChangeRecord)
    (hrun : changes.foldlM (ExtensionState.visit key) s = some s') :
    Follows base key (visited ++ changes) s' := by
  induction changes generalizing s visited with
  | nil =>
    cases hrun
    rw [List.append_nil]
    exact h
  | cons change changes ih =>
    obtain ⟨next, hnext, hrun⟩ := Option.bind_eq_some_iff.mp hrun
    rw [← List.singleton_append, ← List.append_assoc]
    exact ih (h.visit hnext) hrun

theorem Follows.finish {csr : SnapshotCsr} (h : Follows base key visited s)
    (hfinish : s.finish key = some csr) :
    SnapshotCsr.build key
      (((visited.filterMap fun change => visibleOperation key change.mutation).foldl
        (OverlayEntries.applyOperation base) .empty).materialized base)
      maxSnapshotCsrBytesPerReplica = .ok csr := by
  obtain ⟨current, -, hfinish⟩ := Option.bind_eq_some_iff.mp hfinish
  split_ifs at hfinish
  obtain ⟨overlay, hoverlay, hfinish⟩ := Option.bind_eq_some_iff.mp hfinish
  obtain ⟨hbase, hentries⟩ := applyIndex_eq_some hoverlay
  rw [h.base_eq] at hbase hentries
  rw [← h.pending, ← hentries, ← hbase]
  rw [toOption_eq_some, CommittedCsrOverlay.materialize] at hfinish
  split_ifs at hfinish
  exact hfinish

end ExtensionState

/-- An extension is built from the edges of the overlay that has followed all visible
operations after the base. -/
theorem extendSnapshotCsr_eq_some {base csr : SnapshotCsr} {view : FjallStore.View}
    {key : SnapshotCsrKey} (h : extendSnapshotCsr [base] view key = some csr) :
    ∃ pages, changePages view key ⟨base.key.appliedIndex, u64Max⟩ = some pages ∧
      (∀ change ∈ pages.flatten, base.key.appliedIndex < change.cursor.raftIndex) ∧
      SnapshotCsr.build key
        (((pages.flatten.filterMap fun change => visibleOperation key change.mutation).foldl
          (OverlayEntries.applyOperation base) .empty).materialized base)
        maxSnapshotCsrBytesPerReplica = .ok csr := by
  obtain ⟨base', hbase, h⟩ := Option.bind_eq_some_iff.mp h
  obtain ⟨overlay, hoverlay, h⟩ := Option.bind_eq_some_iff.mp h
  obtain ⟨pages, hpages, h⟩ := Option.bind_eq_some_iff.mp h
  obtain ⟨s, hrun, hfinish⟩ := Option.bind_eq_some_iff.mp h
  have hsame : base' = base := by
    rw [latestSnapshotCsrBase, List.filter_cons, List.filter_nil] at hbase
    split_ifs at hbase
    · cases hbase
      rfl
    · cases hbase
  subst hsame
  have hnew : overlay = ⟨base', base'.key.appliedIndex, .empty, 0, maxSnapshotCsrOverlayBytes, 4096⟩ := by
    cases hoverlay
    rfl
  subst hnew
  have hstart : ExtensionState.Follows base' key []
      ⟨⟨base', base'.key.appliedIndex, .empty, 0, maxSnapshotCsrOverlayBytes, 4096⟩,
        base'.key.appliedIndex + 1, [], none, 0⟩ :=
    ⟨rfl, rfl, Nat.lt_succ_self _, fun _ hmem => absurd hmem List.not_mem_nil⟩
  have hfollows := hstart.foldlM pages.flatten hrun
  exact ⟨pages, hpages, hfollows.indices, hfollows.finish hfinish⟩

end DtgProxy.Execution

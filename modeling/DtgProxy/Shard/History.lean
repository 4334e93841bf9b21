import DtgProxy.Lib.Paging
import DtgProxy.Shard.ReservedNames

/-! # Reading the change history

Conflict checks scan the changes after a snapshot and a replayed command reads
the batch of its index back, both page by page and within a page budget.
-/
namespace DtgProxy.Shard

open Kernel Lib Storage Paging ReplicaStore

variable {after : ChangeCursor}

def historyPageLimit : ℕ := 256
def historyPageBudget : ℕ := 256
def historyRecordBudget : ℕ := historyPageLimit * historyPageBudget

/-- The greatest `u64`, as a mutation ordinal: after every change of an index. -/
def u64Max : ℕ := 2 ^ 64 - 1

/-- One page of changes, of any size. -/
def fetchChangesBy (pageLimit : ℕ) (store : ReplicaStore) (throughIndex : ℕ)
    (after : Option ChangeCursor) : Except ShardError (Page ChangeRecord ChangeCursor) :=
  match ChangesRead.new after throughIndex pageLimit with
  | .error error => .error (.storage error)
  | .ok request => .ok ⟨(store.changesPage request).rows, (store.changesPage request).nextAfter⟩

def fetchChanges : ReplicaStore → ℕ → Option ChangeCursor →
    Except ShardError (Page ChangeRecord ChangeCursor) :=
  fetchChangesBy historyPageLimit

/-! ## All changes after a cursor -/

/-- The scan for any page size and a visitor with a state of its own; the record
budget is as many full pages as the page budget allows. -/
def changeScanBy {σ : Type} (pageLimit : ℕ) (store : ReplicaStore) (appliedIndex : ℕ)
    (visit : σ → ChangeRecord → Except ShardError σ) :
    Scan ShardError ChangeRecord ChangeCursor σ where
  fetch := fetchChangesBy pageLimit store appliedIndex
  visit after s change :=
    if (∃ cursor ∈ after, change.cursor ≤ cursor) ∨ appliedIndex < change.cursor.raftIndex then
      .error (corruptIntentHistory "durable change history row is outside the requested range")
    else visit s change
  advances after page next :=
    page.rows.getLast?.any (fun row => row.cursor = next) &&
      decide (∀ previous ∈ after, previous < next)
  recordLimit := pageLimit * historyPageBudget
  outOfPages := corruptIntentHistory "durable change history exceeded the page budget"
  outOfRecords := corruptIntentHistory "durable change history exceeded the record budget"
  stuck := corruptIntentHistory "durable change history pagination did not make progress"

def forEachChangeBy {σ : Type} (pageLimit : ℕ) (binding : ReplicaBinding) (store : ReplicaStore)
    (appliedIndex : ℕ) (initialAfter : Option ChangeCursor)
    (visit : σ → ChangeRecord → Except ShardError σ) (s : σ) : Except ShardError σ :=
  if appliedIndex = 0 then .ok s
  else
    match store.verifyFence binding appliedIndex with
    | .error error => .error (.storage error)
    | .ok () => (changeScanBy pageLimit store appliedIndex visit).run historyPageBudget initialAfter 0 s

def forEachChange (binding : ReplicaBinding) (store : ReplicaStore) (appliedIndex : ℕ)
    (initialAfter : Option ChangeCursor) (visit : ChangeRecord → Except ShardError Unit) :
    Except ShardError Unit :=
  forEachChangeBy historyPageLimit binding store appliedIndex initialAfter (fun _ => visit) ()

section Reading

variable {σ : Type} {pageLimit : ℕ} (hlimit : 0 < pageLimit)

include hlimit

theorem fetchChangesBy_eq {store : ReplicaStore} {throughIndex : ℕ} {after : Option ChangeCursor}
    {feed : List ChangeRecord} (hafter : ∀ cursor ∈ after, cursor.raftIndex ≤ throughIndex)
    (hfeed : store.changes.filter (fun change => decide (∀ cursor ∈ after, cursor < change.cursor) &&
      decide (change.cursor.raftIndex ≤ throughIndex)) = rest (·.cursor) feed after) :
    fetchChangesBy pageLimit store throughIndex after =
      .ok ⟨(rest (·.cursor) feed after).take pageLimit,
        if pageLimit < (rest (·.cursor) feed after).length then
          ((rest (·.cursor) feed after).take pageLimit).getLast?.map (·.cursor)
        else none⟩ := by
  have hrequest : ChangesRead.new after throughIndex pageLimit =
      .ok ⟨after, throughIndex, pageLimit⟩ := by
    rw [ChangesRead.new, if_neg]
    cases after with
    | none => simp [hlimit.ne']
    | some cursor => simpa [hlimit.ne'] using hafter cursor rfl
  have hmatching : store.changes.filter (fun change =>
      ChangesRead.includes ⟨after, throughIndex, pageLimit⟩ change.cursor) =
      rest (·.cursor) feed after := by
    rw [← hfeed]
    apply List.filter_congr
    intro change _
    cases after <;> simp [ChangesRead.includes]
  rw [fetchChangesBy, hrequest]
  simp only [changesPage, hmatching]

theorem changeScanBy_reads (store : ReplicaStore)
    (visit : σ → ChangeRecord → Except ShardError σ) :
    Reads (·.cursor) (changeScanBy pageLimit store store.appliedIndex visit) store.changes pageLimit
      (fun after => ∀ cursor ∈ after, cursor.raftIndex ≤ store.appliedIndex) visit where
  ordered := store.changes_ordered
  positive := hlimit
  good_row row hrow := by
    intro cursor hcursor
    cases hcursor
    exact index_le_of_mem_changes hrow
  fetch after hafter := by
    refine fetchChangesBy_eq hlimit hafter ?_
    apply List.filter_congr
    intro change hchange
    simp [index_le_of_mem_changes hchange]
  visit after _ _ change hchange := by
    obtain ⟨hmem, hcursor⟩ := (mem_rest _).mp hchange
    refine if_neg (not_or.mpr ⟨?_, not_lt.mpr (index_le_of_mem_changes hmem)⟩)
    rintro ⟨cursor, hc, hle⟩
    exact absurd (hcursor cursor hc) (not_lt.mpr hle)
  advances after page _ row hrow hlast := by
    obtain ⟨-, hcursor⟩ := (mem_rest _).mp hrow
    simpa [changeScanBy, hlast] using hcursor

end Reading

def changesAfter (store : ReplicaStore) (after : ChangeCursor) : List ChangeRecord :=
  rest (·.cursor) store.changes (some after)

theorem mem_changesAfter {store : ReplicaStore} {change : ChangeRecord} :
    change ∈ changesAfter store after ↔ change ∈ store.changes ∧ after < change.cursor := by
  simp [changesAfter, mem_rest]

section Healthy

variable (store : ReplicaStore) (hafter : after.raftIndex ≤ store.appliedIndex)

include hafter

/-- On a healthy store the scan visits every change after the cursor, in order,
until the page budget runs out. -/
theorem forEachChangeBy_eq {σ : Type} {pageLimit : ℕ} (hlimit : 0 < pageLimit)
    (visit : σ → ChangeRecord → Except ShardError σ) (s : σ) :
    forEachChangeBy pageLimit store.binding store store.appliedIndex (some after) visit s =
      (do
        let s' ← ((changesAfter store after).take (historyPageBudget * pageLimit)).foldlM visit s
        if historyPageBudget * pageLimit < (changesAfter store after).length then
          .error (corruptIntentHistory "durable change history exceeded the page budget")
        else .ok s') := by
  by_cases hzero : store.appliedIndex = 0
  · have hnone : changesAfter store after = [] := by
      apply List.eq_nil_iff_forall_not_mem.mpr
      intro change hchange
      obtain ⟨hmem, hlt⟩ := mem_changesAfter.mp hchange
      obtain ⟨batch, hbatch, -⟩ := mem_changes.mp hmem
      have hle := index_le_of_mem_changes hmem
      rw [batchAt, if_pos (by omega)] at hbatch
      cases hbatch
    rw [forEachChangeBy, if_pos hzero, hnone, List.take_nil]
    rfl
  · have hfence : store.verifyFence store.binding store.appliedIndex = .ok () := by
      simp [verifyFence]
    rw [forEachChangeBy, if_neg hzero, hfence]
    refine (changeScanBy_reads hlimit store visit).run_eq historyPageBudget (some after) ?_ 0 ?_ ?_ s
    · intro cursor hcursor
      cases hcursor
      exact hafter
    · rw [Nat.zero_add]
      exact le_of_eq (Nat.mul_comm _ _)
    · intro h
      cases h

theorem forEachChange_eq (visit : ChangeRecord → Except ShardError Unit) :
    forEachChange store.binding store store.appliedIndex (some after) visit =
      (do
        ((changesAfter store after).take historyRecordBudget).foldlM (fun _ a => visit a) ()
        if historyRecordBudget < (changesAfter store after).length then
          .error (corruptIntentHistory "durable change history exceeded the page budget")
        else .ok ()) :=
  forEachChangeBy_eq store hafter (by decide : 0 < historyPageLimit) (fun _ => visit) ()

theorem forEachChange_eq_ok (visit : ChangeRecord → Except ShardError Unit) :
    forEachChange store.binding store store.appliedIndex (some after) visit = .ok () ↔
      (changesAfter store after).length ≤ historyRecordBudget ∧
        ∀ change ∈ changesAfter store after, visit change = .ok () := by
  rw [forEachChange_eq store hafter visit, Result.bind_eq_ok]
  constructor
  · rintro ⟨_, hvisit, hlength⟩
    split_ifs at hlength with hbudget
    rw [List.take_of_length_le (not_lt.mp hbudget), Result.foldlM_visit_eq_ok] at hvisit
    exact ⟨not_lt.mp hbudget, hvisit⟩
  · rintro ⟨hlength, hvisit⟩
    refine ⟨(), ?_, if_neg (not_lt.mpr hlength)⟩
    rw [List.take_of_length_le hlength, Result.foldlM_visit_eq_ok]
    exact hvisit

/-- A failed scan stopped at a refused change, or every change it had the budget
to visit was accepted. -/
theorem forEachChange_eq_error {visit : ChangeRecord → Except ShardError Unit} {error : ShardError}
    (h : forEachChange store.binding store store.appliedIndex (some after) visit = .error error) :
    (∃ change ∈ changesAfter store after, visit change = .error error) ∨
      historyRecordBudget < (changesAfter store after).length ∧
        (∀ change ∈ (changesAfter store after).take historyRecordBudget, visit change = .ok ()) ∧
        error = corruptIntentHistory "durable change history exceeded the page budget" := by
  rw [forEachChange_eq store hafter visit] at h
  cases hvisit : ((changesAfter store after).take historyRecordBudget).foldlM
      (fun _ a => visit a) () with
  | error =>
    rw [hvisit] at h
    cases h
    obtain ⟨change, hchange, herror⟩ := Result.exists_of_foldlM_visit_eq_error hvisit
    exact .inl ⟨change, List.mem_of_mem_take hchange, herror⟩
  | ok =>
    rw [hvisit] at h
    change (if _ then _ else _) = _ at h
    split_ifs at h with hbudget
    cases h
    exact .inr ⟨hbudget, Result.foldlM_visit_eq_ok.mp hvisit, rfl⟩

end Healthy

/-- Appends the next mutation of the batch. -/
def batchStep (index : ℕ) (mutations : List LogicalMutation) (change : ChangeRecord) :
    Except ShardError (List LogicalMutation) :=
  if change.cursor.raftIndex ≠ index ∨ change.cursor.mutationOrdinal ≠ mutations.length then
    .error (corruptIntentHistory "old-index transaction batch history is missing or out of order")
  else .ok (mutations ++ [change.mutation])

def batchScan (store : ReplicaStore) (index : ℕ) :
    Scan ShardError ChangeRecord ChangeCursor (List LogicalMutation) where
  fetch := fetchChanges store index
  visit _ := batchStep index
  advances after page next :=
    page.rows.getLast?.any (fun row => row.cursor = next) &&
      after.any (fun previous => decide (previous < next)) && next.raftIndex = index
  recordLimit := historyRecordBudget
  outOfPages := corruptIntentHistory "old-index transaction batch exceeded the page budget"
  outOfRecords := corruptIntentHistory "old-index transaction batch exceeded the record budget"
  stuck := corruptIntentHistory "old-index transaction batch pagination did not make progress"

def mutationsAtIndex (binding : ReplicaBinding) (store : ReplicaStore) (appliedIndex index : ℕ) :
    Except ShardError (List LogicalMutation) :=
  if index = 0 ∨ appliedIndex ≤ index then
    .error (corruptIntentHistory "old-index transaction replay is outside durable history")
  else
    match store.verifyFence binding appliedIndex with
    | .error error => .error (.storage error)
    | .ok () => do
      let mutations ←
        (batchScan store index).run historyPageBudget (some ⟨index - 1, u64Max⟩) 0 []
      if mutations = [] then
        .error (corruptIntentHistory "old-index transaction batch history is missing")
      else .ok mutations

end DtgProxy.Shard

import DtgProxy.Storage.FjallVisibility

/-! # The visible rows of a growing store

A read goes over the mutations of a store in the order its provider keeps them.  A batch
changes the visible rows of those elements only that it puts or deletes, so the number of
visible rows grows by at most the number of these elements.
-/
namespace DtgProxy.Storage

open Kernel Lib Lib.Newest

/-- The order in which a provider reads its mutations back: as they arrived, or by the keys
of its history. -/
inductive ReadOrder where
  | arrival
  | byKey
deriving DecidableEq, Repr

def ReadOrder.history (order : ReadOrder) (store : ReplicaStore) : List LogicalMutation :=
  match order with
  | .arrival => store.mutations
  | .byKey => (FjallTables.keyOrder store.changes).map (·.2)

namespace ElementKind

variable {ι ρ : Type} [LinearOrder ι] {kind : ElementKind ι ρ}
variable {request : PointRead ι} {mutation : LogicalMutation}

/-- An event of a point read comes from a mutation of the requested element. -/
theorem touched_of_event {event : Event ρ} (h : kind.event request mutation = some event) :
    kind.touched mutation = some request.id := by
  cases hrow : event.row with
  | some =>
    obtain ⟨hput, hid, -⟩ := event_some h hrow
    rw [touched, hput, ← hid]
  | none =>
    obtain ⟨hput, htombstone⟩ := event_none h hrow
    rw [touched, hput, htombstone]
    rfl

theorem event_eq_none (h : kind.touched mutation ≠ some request.id) :
    kind.event request mutation = none := by
  cases hevent : kind.event request mutation with
  | none => rfl
  | some => exact absurd (touched_of_event hevent) h

/-- Changes of other elements do not matter for the row the rule selects. -/
theorem selectedRow_append {changes extra : List ChangeRecord} {row : ρ}
    (h : ∀ change ∈ extra, kind.event request change.mutation = none) :
    kind.SelectedRow (changes ++ extra) request row ↔ kind.SelectedRow changes request row := by
  have hmem : ∀ change event, change ∈ changes ++ extra →
      kind.event request change.mutation = some event → change ∈ changes := by
    intro change event hchange hevent
    rcases List.mem_append.mp hchange with hold | hnew
    · exact hold
    · rw [h change hnew] at hevent
      cases hevent
  constructor
  · rintro ⟨change, event, ⟨happlied, hvisible, hgreatest⟩, hrow⟩
    refine ⟨change, event, ⟨hmem change event happlied hvisible, hvisible, ?_⟩, hrow⟩
    exact fun other hother => hgreatest other (List.mem_append_left _ hother)
  · rintro ⟨change, event, ⟨happlied, hvisible, hgreatest⟩, hrow⟩
    refine ⟨change, event, ⟨List.mem_append_left _ happlied, hvisible, ?_⟩, hrow⟩
    exact fun other hother e he => hgreatest other (hmem other e hother he) e he

theorem visible_push (keyed : kind.Keyed) (order : ReadOrder) (store : ReplicaStore)
    {batch : StoredBatch}
    (h : ∀ mutation ∈ batch.mutations, kind.touched mutation ≠ some request.id) :
    kind.visible (order.history (store.push batch)) request =
      kind.visible (order.history store) request := by
  cases order with
  | arrival =>
    have hnone : batch.mutations.filterMap (kind.event request) = [] :=
      List.filterMap_eq_nil_iff.mpr fun mutation hmutation => event_eq_none (h mutation hmutation)
    simp only [ReadOrder.history, visible, ReplicaStore.mutations_push, List.filterMap_append,
      hnone, List.append_nil]
  | byKey =>
    have hextra : ∀ change ∈ ReplicaStore.batchChanges (store.appliedIndex + 1) batch,
        kind.event request change.mutation = none := by
      intro change hchange
      obtain ⟨-, hplace⟩ := ReplicaStore.mem_batchChanges.mp hchange
      exact event_eq_none (h _ (List.mem_of_getElem? hplace))
    ext row
    rw [ReadOrder.history, ReadOrder.history,
      visible_keyOrder_iff keyed (ReplicaStore.changes_ordered _),
      visible_keyOrder_iff keyed (ReplicaStore.changes_ordered _), ReplicaStore.changes_push,
      selectedRow_append hextra]

/-- A batch adds at most one visible row for each element it puts or deletes. -/
theorem length_visibleRows_push_le (keyed : kind.Keyed) (order : ReadOrder) (store : ReplicaStore)
    (batch : StoredBatch) (ids : List ι)
    (h : ∀ mutation ∈ batch.mutations, ∀ id, kind.touched mutation = some id → id ∈ ids)
    (validAt : Int64) (transactionAt : TransactionTime) :
    (kind.visibleRows (order.history (store.push batch)) validAt transactionAt).length ≤
      (kind.visibleRows (order.history store) validAt transactionAt).length + ids.length := by
  let rows := kind.visibleRows (order.history store) validAt transactionAt
  let rows' := kind.visibleRows (order.history (store.push batch)) validAt transactionAt
  have hsubset : rows'.map kind.id ⊆ rows.map kind.id ++ ids := by
    intro id hid
    obtain ⟨row, hrow, rfl⟩ := List.mem_map.mp hid
    by_cases hbatch : kind.id row ∈ ids
    · exact List.mem_append_right _ hbatch
    · have hvisible := mem_visibleRows.mp hrow
      rw [visible_push keyed order store fun mutation hmutation htouched =>
        hbatch (h mutation hmutation _ htouched)] at hvisible
      exact List.mem_append_left _ (List.mem_map_of_mem (mem_visibleRows.mpr hvisible))
  have hnodup : (rows'.map kind.id).Nodup :=
    (List.pairwise_map.mpr visibleRows_ordered).imp ne_of_lt
  have hle := (hnodup.subperm hsubset).length_le
  rwa [List.length_append, List.length_map, List.length_map] at hle

end ElementKind

end DtgProxy.Storage

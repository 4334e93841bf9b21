import DtgProxy.Lib.Segment
import DtgProxy.Storage.Fjall

/-! # The current rows and the adjacency of a Fjall namespace

Besides the history, a mutation writes the current row of its element and, for an
edge, a key under each of its end points.  The keys of an edge's earlier version are
found by a scan of the stored keyspaces, made once per edge and call; what the call
itself has written is remembered apart.  Staging a call this way has the effect of
writing its mutations one by one.
-/
namespace DtgProxy.Storage

open Kernel Lib Lib.Segment

/-- The key of an edge version under one of its end points. -/
abbrev AdjacencyKey := VertexId ×ₗ EdgeId ×ₗ TransactionTime ×ₗ ℕ

def adjacencyKey (vertexId : VertexId) (edge : EdgeVersion) : AdjacencyKey :=
  toLex (vertexId, toLex (edge.id, toLex (edge.transactionTime, edge.version.toNat)))

def keyEdge (key : AdjacencyKey) : EdgeId := (ofLex (ofLex key).2).1

@[simp] theorem keyEdge_adjacencyKey (vertexId : VertexId) (edge : EdgeVersion) :
    keyEdge (adjacencyKey vertexId edge) = edge.id := rfl

abbrev AdjacencyTable := OrderedMap AdjacencyKey Unit

def edgeKeys (table : AdjacencyTable) (id : EdgeId) : List AdjacencyKey :=
  table.keys.filter (fun key => keyEdge key = id)

def removeKeys (table : AdjacencyTable) (keys : List AdjacencyKey) : AdjacencyTable :=
  keys.foldl (fun table key => table.erase key) table

@[ext] structure CurrentTables where
  vertex : OrderedMap VertexId VertexVersion
  edge : OrderedMap EdgeId EdgeVersion
  adjacencyOut : AdjacencyTable
  adjacencyIn : AdjacencyTable

/-- What a call remembers of the edges it wrote. -/
structure EdgeAdjacencyState where
  current : OrderedMap EdgeId EdgeVersion
  cleaned : OrderedMap EdgeId Unit

namespace EdgeAdjacencyState

def empty : EdgeAdjacencyState := ⟨∅, ∅⟩

end EdgeAdjacencyState

/-- The rows as the write batch of a call leaves them so far, and what the call
remembers. -/
structure Staged where
  tables : CurrentTables
  adjacency : EdgeAdjacencyState

namespace CurrentTables

def empty : CurrentTables := ⟨∅, ∅, ∅, ∅⟩

/-- Removes the stored keys of an edge, once per call; `base` is what is stored. -/
def cleanAdjacency (base : CurrentTables) (staged : Staged) (id : EdgeId) : Staged :=
  if staged.adjacency.cleaned.contains id then staged
  else
    ⟨{ staged.tables with
        adjacencyOut := removeKeys staged.tables.adjacencyOut (edgeKeys base.adjacencyOut id)
        adjacencyIn := removeKeys staged.tables.adjacencyIn (edgeKeys base.adjacencyIn id) },
      { staged.adjacency with cleaned := staged.adjacency.cleaned.insert id () }⟩

def removeAdjacency (tables : CurrentTables) (edge : EdgeVersion) : CurrentTables :=
  { tables with
    adjacencyOut := tables.adjacencyOut.erase (adjacencyKey edge.source edge)
    adjacencyIn := tables.adjacencyIn.erase (adjacencyKey edge.target edge) }

/-- Removes the keys of the version this call wrote before. -/
def removePrevious (staged : Staged) (id : EdgeId) : Staged :=
  match staged.adjacency.current[id]? with
  | none => staged
  | some previous =>
    ⟨removeAdjacency staged.tables previous,
      { staged.adjacency with current := staged.adjacency.current.erase id }⟩

def stageCurrentMutation (base : CurrentTables) (staged : Staged) : LogicalMutation → Staged
  | .putVertex vertex =>
    { staged with
      tables := { staged.tables with vertex := staged.tables.vertex.insert vertex.id vertex } }
  | .deleteVertex tombstone =>
    { staged with
      tables := { staged.tables with vertex := staged.tables.vertex.erase tombstone.id } }
  | .putEdge edge =>
    let staged := removePrevious (cleanAdjacency base staged edge.id) edge.id
    ⟨{ staged.tables with
        edge := staged.tables.edge.insert edge.id edge
        adjacencyOut := staged.tables.adjacencyOut.insert (adjacencyKey edge.source edge) ()
        adjacencyIn := staged.tables.adjacencyIn.insert (adjacencyKey edge.target edge) () },
      { staged.adjacency with current := staged.adjacency.current.insert edge.id edge }⟩
  | .deleteEdge tombstone =>
    let staged := removePrevious (cleanAdjacency base staged tombstone.id) tombstone.id
    { staged with tables := { staged.tables with edge := staged.tables.edge.erase tombstone.id } }
  | .putTransaction _ | .putReplicaMetadata _ => staged

def stageAll (base : CurrentTables) (mutations : List LogicalMutation) : CurrentTables :=
  (mutations.foldl (stageCurrentMutation base) ⟨base, EdgeAdjacencyState.empty⟩).tables

def dropEdge (tables : CurrentTables) (id : EdgeId) : CurrentTables :=
  { tables with
    adjacencyOut := removeKeys tables.adjacencyOut (edgeKeys tables.adjacencyOut id)
    adjacencyIn := removeKeys tables.adjacencyIn (edgeKeys tables.adjacencyIn id) }

/-- The effect of one mutation, whatever call it belongs to. -/
def write (tables : CurrentTables) : LogicalMutation → CurrentTables
  | .putVertex vertex => { tables with vertex := tables.vertex.insert vertex.id vertex }
  | .deleteVertex tombstone => { tables with vertex := tables.vertex.erase tombstone.id }
  | .putEdge edge =>
    { dropEdge tables edge.id with
      edge := tables.edge.insert edge.id edge
      adjacencyOut :=
        (dropEdge tables edge.id).adjacencyOut.insert (adjacencyKey edge.source edge) ()
      adjacencyIn :=
        (dropEdge tables edge.id).adjacencyIn.insert (adjacencyKey edge.target edge) () }
  | .deleteEdge tombstone =>
    { dropEdge tables tombstone.id with edge := tables.edge.erase tombstone.id }
  | .putTransaction _ | .putReplicaMetadata _ => tables

/-! ## One side of the adjacency -/

theorem lookup_removeKeys (table : AdjacencyTable) (keys : List AdjacencyKey) (key : AdjacencyKey) :
    (removeKeys table keys)[key]? = if key ∈ keys then none else table[key]? := by
  rw [removeKeys, lookup_foldl_erase]
  split_ifs <;> rfl

theorem mem_edgeKeys {table : AdjacencyTable} {id : EdgeId} {key : AdjacencyKey} :
    key ∈ edgeKeys table id ↔ key ∈ table ∧ keyEdge key = id := by
  simp [edgeKeys]

/-- A table without the keys of an edge. -/
theorem removeKeys_edgeKeys_eq {table table' : AdjacencyTable} {id : EdgeId}
    (hother : ∀ key, keyEdge key ≠ id → table'[key]? = table[key]?)
    (hgone : ∀ key ∈ table', keyEdge key ≠ id) : table' = removeKeys table (edgeKeys table id) := by
  apply Std.ExtTreeMap.ext_getElem?
  intro key
  rw [lookup_removeKeys]
  by_cases hkey : keyEdge key = id
  · have hnot : key ∉ table' := fun hmem => hgone key hmem hkey
    rw [Std.ExtTreeMap.getElem?_eq_none hnot]
    split_ifs with hmem
    · rfl
    · have hnot' : key ∉ table := fun hin => hmem (mem_edgeKeys.mpr ⟨hin, hkey⟩)
      rw [Std.ExtTreeMap.getElem?_eq_none hnot']
  · rw [hother key hkey, if_neg (fun hmem => hkey (mem_edgeKeys.mp hmem).2)]

/-- What the call remembers accounts for every key on one side: a key of a cleaned
edge is that of the version written last, any other key is stored. -/
structure Accounts (side : EdgeVersion → VertexId) (base table : AdjacencyTable)
    (adjacency : EdgeAdjacencyState) : Prop where
  written : ∀ key ∈ table, keyEdge key ∈ adjacency.cleaned →
    ∃ version, adjacency.current[keyEdge key]? = some version ∧
      key = adjacencyKey (side version) version
  stored : ∀ key ∈ table, keyEdge key ∉ adjacency.cleaned → key ∈ base

/-- One side of the table after the two removals of an edge. -/
def dropSide (side : EdgeVersion → VertexId) (base table : AdjacencyTable)
    (adjacency : EdgeAdjacencyState) (id : EdgeId) : AdjacencyTable :=
  let cleaned := if adjacency.cleaned.contains id then table
    else removeKeys table (edgeKeys base id)
  match adjacency.current[id]? with
  | none => cleaned
  | some previous => cleaned.erase (adjacencyKey (side previous) previous)

variable {adjacency' : EdgeAdjacencyState}

section Side

variable {side : EdgeVersion → VertexId} {base table : AdjacencyTable}
  {adjacency : EdgeAdjacencyState} {id : EdgeId}
variable {key : AdjacencyKey}

theorem lookup_dropSide_of_ne
    (hid : ∀ version, adjacency.current[id]? = some version → version.id = id)
    (hkey : keyEdge key ≠ id) :
    (dropSide side base table adjacency id)[key]? = table[key]? := by
  have hcleaned : (if adjacency.cleaned.contains id then table
      else removeKeys table (edgeKeys base id))[key]? = table[key]? := by
    split_ifs
    · rfl
    · rw [lookup_removeKeys, if_neg (fun hmem => hkey (mem_edgeKeys.mp hmem).2)]
  rw [dropSide]
  cases hcurrent : adjacency.current[id]? with
  | none => exact hcleaned
  | some previous =>
    have hne : adjacencyKey (side previous) previous ≠ key := by
      rintro rfl
      exact hkey (hid previous hcurrent)
    simp only [OrderedMap.lookup_erase, if_neg hne]
    exact hcleaned

theorem keyEdge_ne_of_mem_dropSide (h : Accounts side base table adjacency)
    (hmem : key ∈ dropSide side base table adjacency id) : keyEdge key ≠ id := by
  rintro rfl
  rw [dropSide] at hmem
  by_cases hcleaned : keyEdge key ∈ adjacency.cleaned
  · rw [if_pos (Std.ExtTreeMap.mem_iff_contains.mp hcleaned)] at hmem
    cases hcurrent : adjacency.current[keyEdge key]? with
    | none =>
      rw [hcurrent] at hmem
      obtain ⟨version, hversion, -⟩ := h.written key hmem hcleaned
      rw [hcurrent] at hversion
      cases hversion
    | some =>
      simp only [hcurrent] at hmem
      obtain ⟨hne, hin⟩ := Std.ExtTreeMap.mem_erase.mp hmem
      obtain ⟨version, hversion, hkey⟩ := h.written key hin hcleaned
      rw [hcurrent] at hversion
      cases hversion
      exact hne (compare_eq_iff_eq.mpr hkey.symm)
  · rw [if_neg (fun hin => hcleaned (Std.ExtTreeMap.mem_iff_contains.mpr hin))] at hmem
    have hremoved : key ∈ removeKeys table (edgeKeys base (keyEdge key)) := by
      cases hcurrent : adjacency.current[keyEdge key]? with
      | none =>
        rw [hcurrent] at hmem
        exact hmem
      | some =>
        simp only [hcurrent] at hmem
        exact (Std.ExtTreeMap.mem_erase.mp hmem).2
    rw [← Std.ExtTreeMap.isSome_getElem?_iff_mem, lookup_removeKeys] at hremoved
    split_ifs at hremoved with hbase
    · cases hremoved
    · have hin : key ∈ table := Std.ExtTreeMap.isSome_getElem?_iff_mem.mp hremoved
      exact hbase (mem_edgeKeys.mpr ⟨h.stored key hin hcleaned, rfl⟩)

theorem dropSide_eq (h : Accounts side base table adjacency)
    (hid : ∀ version, adjacency.current[id]? = some version → version.id = id) :
    dropSide side base table adjacency id = removeKeys table (edgeKeys table id) :=
  removeKeys_edgeKeys_eq (fun _ hkey => lookup_dropSide_of_ne hid hkey)
    fun _ hmem => keyEdge_ne_of_mem_dropSide h hmem

theorem mem_removeKeys_edgeKeys :
    key ∈ removeKeys table (edgeKeys table id) ↔ key ∈ table ∧ keyEdge key ≠ id := by
  rw [← Std.ExtTreeMap.isSome_getElem?_iff_mem, lookup_removeKeys]
  by_cases hin : key ∈ table
  · by_cases hkey : keyEdge key = id
    · simp [mem_edgeKeys, hin, hkey]
    · rw [if_neg (fun hmem => hkey (mem_edgeKeys.mp hmem).2),
        Std.ExtTreeMap.isSome_getElem?_iff_mem]
      simp [hin, hkey]
  · rw [if_neg (fun hmem => hin (mem_edgeKeys.mp hmem).1), Std.ExtTreeMap.getElem?_eq_none hin]
    simp [hin]

theorem Accounts.drop (h : Accounts side base table adjacency)
    (hcleaned : ∀ other, other ∈ adjacency'.cleaned ↔ other = id ∨ other ∈ adjacency.cleaned)
    (hcurrent : ∀ other, other ≠ id → adjacency'.current[other]? = adjacency.current[other]?) :
    Accounts side base (removeKeys table (edgeKeys table id)) adjacency' where
  written key hkey hmem := by
    obtain ⟨hin, hne⟩ := mem_removeKeys_edgeKeys.mp hkey
    rw [hcurrent _ hne]
    exact h.written key hin (((hcleaned _).mp hmem).resolve_left hne)
  stored key hkey hmem := by
    obtain ⟨hin, -⟩ := mem_removeKeys_edgeKeys.mp hkey
    exact h.stored key hin fun hold => hmem ((hcleaned _).mpr (.inr hold))

theorem Accounts.put {edge : EdgeVersion} (h : Accounts side base table adjacency')
    (hnone : ∀ key ∈ table, keyEdge key ≠ edge.id) (hedge : edge.id ∈ adjacency'.cleaned) :
    Accounts side base (table.insert (adjacencyKey (side edge) edge) ())
      { adjacency' with current := adjacency'.current.insert edge.id edge } where
  written key hkey hmem := by
    simp only [OrderedMap.lookup_insert]
    rcases Std.ExtTreeMap.mem_insert.mp hkey with hnew | hold
    · obtain rfl := compare_eq_iff_eq.mp hnew
      exact ⟨edge, by rw [keyEdge_adjacencyKey, if_pos rfl], rfl⟩
    · rw [if_neg (Ne.symm (hnone key hold))]
      exact h.written key hold hmem
  stored key hkey hmem := by
    rcases Std.ExtTreeMap.mem_insert.mp hkey with hnew | hold
    · obtain rfl := compare_eq_iff_eq.mp hnew
      exact absurd hedge hmem
    · exact h.stored key hold hmem

end Side

/-! ## A call -/

/-- The staged rows and what the call remembers fit together. -/
structure Coherent (base : CurrentTables) (staged : Staged) : Prop where
  out : Accounts EdgeVersion.source base.adjacencyOut staged.tables.adjacencyOut staged.adjacency
  into : Accounts EdgeVersion.target base.adjacencyIn staged.tables.adjacencyIn staged.adjacency
  ids : ∀ (id : EdgeId) (version : EdgeVersion),
    staged.adjacency.current[id]? = some version → version.id = id

theorem coherent_start (base : CurrentTables) : Coherent base ⟨base, EdgeAdjacencyState.empty⟩ where
  out := ⟨fun key _ hmem => by simp [EdgeAdjacencyState.empty] at hmem, fun key hkey _ => hkey⟩
  into := ⟨fun key _ hmem => by simp [EdgeAdjacencyState.empty] at hmem, fun key hkey _ => hkey⟩
  ids id version h := by simp [EdgeAdjacencyState.empty] at h

section Removal

variable {base : CurrentTables} {staged : Staged} (id : EdgeId)

theorem current_cleanAdjacency :
    (cleanAdjacency base staged id).adjacency.current = staged.adjacency.current := by
  rw [cleanAdjacency]
  split_ifs <;> rfl

theorem tables_removal (h : Coherent base staged) :
    (removePrevious (cleanAdjacency base staged id) id).tables = dropEdge staged.tables id := by
  have hout := dropSide_eq h.out (h.ids id)
  have hin := dropSide_eq h.into (h.ids id)
  rw [dropSide] at hout hin
  rw [removePrevious, current_cleanAdjacency, dropEdge, ← hout, ← hin, cleanAdjacency]
  cases staged.adjacency.current[id]? with
  | none | some => split_ifs <;> rfl

theorem current_removal (other : EdgeId) :
    (removePrevious (cleanAdjacency base staged id) id).adjacency.current[other]? =
      if id = other then none else staged.adjacency.current[other]? := by
  rw [removePrevious, current_cleanAdjacency]
  cases hcurrent : staged.adjacency.current[id]? with
  | none =>
    rw [current_cleanAdjacency]
    split_ifs with hother
    · rw [← hother, hcurrent]
    · rfl
  | some =>
    simp only [OrderedMap.lookup_erase]
    split_ifs <;> rfl

theorem cleaned_removal (other : EdgeId) :
    other ∈ (removePrevious (cleanAdjacency base staged id) id).adjacency.cleaned ↔
      other = id ∨ other ∈ staged.adjacency.cleaned := by
  have hkept : (removePrevious (cleanAdjacency base staged id) id).adjacency.cleaned =
      (cleanAdjacency base staged id).adjacency.cleaned := by
    rw [removePrevious]
    cases (cleanAdjacency base staged id).adjacency.current[id]? <;> rfl
  rw [hkept, cleanAdjacency]
  split_ifs with hcleaned
  · refine ⟨.inr, ?_⟩
    rintro (rfl | hmem)
    · exact Std.ExtTreeMap.mem_iff_contains.mpr hcleaned
    · exact hmem
  · rw [Std.ExtTreeMap.mem_insert, compare_eq_iff_eq, eq_comm]

theorem coherent_removal (h : Coherent base staged) :
    Coherent base (removePrevious (cleanAdjacency base staged id) id) where
  out := by
    rw [tables_removal id h]
    exact h.out.drop (cleaned_removal id) fun other hne => by
      rw [current_removal, if_neg (Ne.symm hne)]
  into := by
    rw [tables_removal id h]
    exact h.into.drop (cleaned_removal id) fun other hne => by
      rw [current_removal, if_neg (Ne.symm hne)]
  ids other version hversion := by
    rw [current_removal] at hversion
    split_ifs at hversion
    exact h.ids other version hversion

end Removal

/-- Staging a mutation writes it, and keeps the call coherent. -/
theorem stageCurrentMutation_eq {base : CurrentTables} {staged : Staged} (h : Coherent base staged)
    (mutation : LogicalMutation) :
    (stageCurrentMutation base staged mutation).tables = staged.tables.write mutation ∧
      Coherent base (stageCurrentMutation base staged mutation) := by
  cases mutation with
  | putVertex | deleteVertex => exact ⟨rfl, h.out, h.into, h.ids⟩
  | putTransaction | putReplicaMetadata => exact ⟨rfl, h⟩
  | deleteEdge tombstone =>
    have hremoval := coherent_removal tombstone.id h
    refine ⟨?_, hremoval.out, hremoval.into, hremoval.ids⟩
    rw [stageCurrentMutation, tables_removal tombstone.id h]
    rfl
  | putEdge edge =>
    have hremoval := coherent_removal edge.id h
    have hcleaned : edge.id ∈
        (removePrevious (cleanAdjacency base staged edge.id) edge.id).adjacency.cleaned :=
      (cleaned_removal edge.id edge.id).mpr (.inl rfl)
    refine ⟨?_, hremoval.out.put ?_ hcleaned, hremoval.into.put ?_ hcleaned, ?_⟩
    · rw [stageCurrentMutation, tables_removal edge.id h]
      rfl
    · intro key hkey
      rw [tables_removal edge.id h] at hkey
      exact (mem_removeKeys_edgeKeys.mp hkey).2
    · intro key hkey
      rw [tables_removal edge.id h] at hkey
      exact (mem_removeKeys_edgeKeys.mp hkey).2
    · intro other version hversion
      simp only [stageCurrentMutation, OrderedMap.lookup_insert] at hversion
      split_ifs at hversion with hother
      · cases hversion
        exact hother
      · exact hremoval.ids other version hversion

/-- Staging a call writes its mutations one by one. -/
theorem stageAll_eq (base : CurrentTables) (mutations : List LogicalMutation) :
    base.stageAll mutations = mutations.foldl write base := by
  suffices hfold : ∀ staged, Coherent base staged →
      (mutations.foldl (stageCurrentMutation base) staged).tables =
        mutations.foldl write staged.tables from
    hfold _ (coherent_start base)
  induction mutations with
  | nil => exact fun _ _ => rfl
  | cons mutation mutations ih =>
    intro staged hstaged
    obtain ⟨htables, hcoherent⟩ := stageCurrentMutation_eq hstaged mutation
    rw [List.foldl_cons, List.foldl_cons, ih _ hcoherent, htables]

end CurrentTables

end DtgProxy.Storage

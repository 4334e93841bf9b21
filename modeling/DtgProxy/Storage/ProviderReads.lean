import DtgProxy.Storage.Kuzu

/-! # Reads on the two embedded providers

Both providers hold the same log after the same batches.  Fjall visits a history
in the order of its keys and Kuzu in the order of arrival.  The two orders pick
the same row unless, among the events of greatest time and version, a tombstone
arrived before every put: Kuzu then returns nothing and Fjall the first put.
-/
namespace DtgProxy.Storage

open Kernel Lib Lib.Newest FjallTables

/-! ## Point reads -/

namespace ElementKind

variable {ι ρ : Type} [LinearOrder ι]

/-- How the history keys of one kind of element are made. -/
structure Keyed (kind : ElementKind ι ρ) where
  tag : UInt8
  number : ι → ℕ
  put : ∀ {mutation row} (cursor : ChangeCursor), kind.put mutation = some row →
    historyKey mutation cursor = some ⟨tag, number (kind.id row), (kind.transactionTime row).get,
      (kind.version row).toNat, false, cursor⟩
  tombstone : ∀ {mutation id time version} (cursor : ChangeCursor),
    kind.tombstone mutation = some (id, time, version) →
    historyKey mutation cursor = some ⟨tag, number id, time.get, version.toNat, true, cursor⟩

end ElementKind

def verticesKeyed : vertices.Keyed where
  tag := 118
  number := Identifier.get
  put {mutation row} cursor h := by
    cases mutation <;> cases h
    rfl
  tombstone {mutation id time version} cursor h := by
    cases mutation <;> cases h
    rfl

def edgesKeyed : edges.Keyed where
  tag := 101
  number := Identifier.get
  put {mutation row} cursor h := by
    cases mutation <;> cases h
    rfl
  tombstone {mutation id time version} cursor h := by
    cases mutation <;> cases h
    rfl

namespace ElementKind

variable {ι ρ : Type} [LinearOrder ι] {kind : ElementKind ι ρ} {mutation : LogicalMutation}

/-- The key of an event: tombstones come after the puts of their time and version. -/
theorem Keyed.event (keyed : kind.Keyed) {request : PointRead ι} {event : Event ρ}
    (h : kind.event request mutation = some event) (cursor : ChangeCursor) :
    historyKey mutation cursor = some ⟨keyed.tag, keyed.number request.id, event.time.get,
      event.version.toNat, event.row.isNone, cursor⟩ := by
  cases hrow : event.row with
  | some =>
    obtain ⟨hput, hid, hevent⟩ := event_some h hrow
    rw [keyed.put cursor hput, hid, hevent]
    rfl
  | none =>
    rw [keyed.tombstone cursor (event_none h hrow).2]
    rfl

theorem Event.rank_eq_iff {e f : Event ρ} :
    e.rank = f.rank ↔ e.time = f.time ∧ e.version.toNat = f.version.toNat := by
  rw [Event.rank, Event.rank, EmbeddingLike.apply_eq_iff_eq, Prod.mk.injEq]

/-- A tombstone of the greatest time and version arrived before every put that
shares them, and there is such a put. -/
def PutHidden (kind : ElementKind ι ρ) (changes : List ChangeRecord) (request : PointRead ι) :
    Prop :=
  ∃ deletion ∈ changes, ∃ e, kind.event request deletion.mutation = some e ∧ e.row = none ∧
    (∀ change ∈ changes, ∀ f, kind.event request change.mutation = some f →
      f.rank ≤ e.rank ∧ (f.rank = e.rank → f.row ≠ none → deletion.cursor < change.cursor)) ∧
    ∃ put ∈ changes, ∃ f, kind.event request put.mutation = some f ∧ f.rank = e.rank ∧ f.row ≠ none

section Orders

variable {changes : List ChangeRecord} {request : PointRead ι}

/-- Visiting the order of arrival, the earliest of the newest events is kept. -/
theorem newest_arrival (hordered : InOrder changes) {e : Event ρ}
    (h : newest Event.rank ((changes.map (·.mutation)).filterMap (kind.event request)) = some e) :
    ∃ x ∈ changes, kind.event request x.mutation = some e ∧
      ∀ y ∈ changes, ∀ f, kind.event request y.mutation = some f →
        f.rank ≤ e.rank ∧ (f.rank = e.rank → x.cursor ≤ y.cursor) := by
  rw [List.filterMap_map] at h
  obtain ⟨x, hx, hxe, hmax⟩ := newest_filterMap hordered h
  refine ⟨x, hx, hxe, fun y hy f hf => ?_⟩
  rcases hmax y hy f hf with hlt | ⟨heq, hle⟩
  · exact ⟨hlt.le, fun heq => absurd heq hlt.ne⟩
  · exact ⟨heq.le, fun _ => hle⟩

theorem eq_of_cursor_eq (hordered : InOrder changes) {x y : ChangeRecord} (hx : x ∈ changes)
    (hy : y ∈ changes) (h : x.cursor = y.cursor) : x = y :=
  List.inj_on_of_nodup_map (List.pairwise_map.mpr (hordered.imp ne_of_lt)) hx hy h

/-- A put is hidden exactly when the earliest of the newest events is a tombstone and some
put has its time and version. -/
theorem putHidden_iff (hordered : InOrder changes) {x : ChangeRecord} {e : Event ρ}
    (hx : x ∈ changes) (hxe : kind.event request x.mutation = some e)
    (hfirst : ∀ y ∈ changes, ∀ f, kind.event request y.mutation = some f →
      f.rank ≤ e.rank ∧ (f.rank = e.rank → x.cursor ≤ y.cursor)) :
    kind.PutHidden changes request ↔ e.row = none ∧ ∃ put ∈ changes, ∃ f,
      kind.event request put.mutation = some f ∧ f.rank = e.rank ∧ f.row ≠ none := by
  constructor
  · rintro ⟨deletion, hmem, d, hd, -, hdmax, hput⟩
    obtain ⟨hle, htie⟩ := hfirst deletion hmem d hd
    obtain ⟨hge, hbefore⟩ := hdmax x hx e hxe
    have hrank : d.rank = e.rank := le_antisymm hle hge
    refine ⟨?_, hrank ▸ hput⟩
    by_contra hrow
    exact absurd (hbefore hrank.symm hrow) (not_lt.mpr (htie hrank))
  · rintro ⟨hrow, hput⟩
    refine ⟨x, hx, e, hxe, hrow, fun change hchange f hf => ?_, hput⟩
    obtain ⟨hle, htie⟩ := hfirst change hchange f hf
    refine ⟨hle, fun heq hfrow => lt_of_le_of_ne (htie heq) fun hcursor => hfrow ?_⟩
    rw [eq_of_cursor_eq hordered hx hchange hcursor, hf] at hxe
    cases hxe
    exact hrow

variable (keyed : kind.Keyed) (hordered : InOrder changes)

include keyed hordered

/-- Visiting the order of the keys, a put is kept before a tombstone. -/
theorem newest_keyOrder {e : Event ρ}
    (h : newest Event.rank
      (((keyOrder changes).map (·.2)).filterMap (kind.event request)) = some e) :
    ∃ x ∈ changes, kind.event request x.mutation = some e ∧
      ∀ y ∈ changes, ∀ f, kind.event request y.mutation = some f →
        f.rank < e.rank ∨ (f.rank = e.rank ∧ (e.row.isNone < f.row.isNone ∨
          (e.row.isNone = f.row.isNone ∧ x.cursor ≤ y.cursor))) := by
  rw [List.filterMap_map] at h
  obtain ⟨⟨key, mutation⟩, hmem, hevent, hmax⟩ :=
    newest_filterMap (keyOrder_ordered changes) h
  obtain ⟨x, hx, hkey, rfl⟩ := (mem_keyOrder hordered).mp hmem
  rw [keyed.event hevent] at hkey
  cases hkey
  refine ⟨x, hx, hevent, fun y hy f hf => ?_⟩
  have hentry := (mem_keyOrder hordered).mpr
    ⟨y, hy, keyed.event hf y.cursor, rfl⟩
  rcases hmax _ hentry f hf with hlt | ⟨hrank, hle⟩
  · exact Or.inl hlt
  · refine Or.inr ⟨hrank, ?_⟩
    obtain ⟨htime, hversion⟩ := Event.rank_eq_iff.mp hrank
    simp only [htime, hversion] at hle
    exact HistoryKey.le_iff_of_same.mp hle

/-- Both orders contain the same events. -/
theorem filterMap_event_eq_nil_iff :
    ((keyOrder changes).map (·.2)).filterMap (kind.event request) = [] ↔
      (changes.map (·.mutation)).filterMap (kind.event request) = [] := by
  rw [List.filterMap_eq_nil_iff, List.filterMap_eq_nil_iff, List.forall_mem_map,
    List.forall_mem_map]
  constructor
  · intro h change hchange
    cases hevent : kind.event request change.mutation with
    | none => rfl
    | some =>
      have hentry := (mem_keyOrder hordered).mpr
        ⟨change, hchange, keyed.event hevent change.cursor, rfl⟩
      exact hevent.symm.trans (h _ hentry)
  · rintro h ⟨key, mutation⟩ hentry
    obtain ⟨change, hchange, -, rfl⟩ := (mem_keyOrder hordered).mp hentry
    exact h change hchange

/-- The two orders show the same row exactly when no put is hidden. -/
theorem visible_eq_iff :
    kind.visible ((keyOrder changes).map (·.2)) request =
      kind.visible (changes.map (·.mutation)) request ↔ ¬ kind.PutHidden changes request := by
  unfold visible
  cases hk : newest Event.rank ((changes.map (·.mutation)).filterMap (kind.event request)) with
  | none =>
    have hnil := newest_eq_none_iff.mp hk
    rw [newest_eq_none_iff.mpr ((filterMap_event_eq_nil_iff keyed hordered).mpr hnil)]
    refine iff_of_true rfl ?_
    rintro ⟨deletion, hmem, e, hevent, -⟩
    rw [List.filterMap_eq_nil_iff] at hnil
    rw [hnil _ (List.mem_map_of_mem hmem)] at hevent
    cases hevent
  | some e =>
    obtain ⟨e', hf⟩ : ∃ e', newest Event.rank
        (((keyOrder changes).map (·.2)).filterMap (kind.event request)) = some e' := by
      refine Option.ne_none_iff_exists'.mp fun hnone => ?_
      have hnil := (filterMap_event_eq_nil_iff keyed hordered).mp (newest_eq_none_iff.mp hnone)
      rw [hnil] at hk
      cases hk
    rw [hf]
    obtain ⟨x, hx, hxe, hxmax⟩ := newest_arrival hordered hk
    obtain ⟨x', hx', hxe', hxmax'⟩ := newest_keyOrder keyed hordered hf
    obtain ⟨hle, harrival⟩ := hxmax x' hx' e' hxe'
    have hrank : e'.rank = e.rank :=
      le_antisymm hle ((hxmax' x hx e hxe).elim le_of_lt fun h => h.1.le)
    change e'.row = e.row ↔ _
    rw [putHidden_iff hordered hx hxe hxmax]
    cases hrow : e.row with
    | some =>
      -- The earliest event is a put, and Fjall picks the earliest put.
      have hsame : x' = x := by
        rcases hxmax' x hx e hxe with hlt | ⟨-, hflag | ⟨-, hle⟩⟩
        · exact absurd hrank.symm hlt.ne
        · rw [hrow, Option.isNone_some] at hflag
          exact absurd hflag (not_lt.mpr (Bool.false_le _))
        · exact eq_of_cursor_eq hordered hx' hx (le_antisymm hle (harrival hrank))
      rw [hsame, hxe] at hxe'
      cases hxe'
      exact iff_of_true hrow fun h => Option.some_ne_none _ h.1
    | none =>
      constructor
      · rintro hrow' ⟨-, put, hput, f, hfe, hfrank, hfrow⟩
        rcases hxmax' put hput f hfe with hlt | ⟨-, hflag | ⟨hflag, -⟩⟩
        · exact absurd (hfrank.trans hrank.symm) hlt.ne
        · rw [hrow', Option.isNone_none] at hflag
          exact absurd hflag (not_lt.mpr (Bool.le_true _))
        · rw [hrow', Option.isNone_none] at hflag
          exact hfrow (Option.isNone_iff_eq_none.mp hflag.symm)
      · intro hshown
        by_contra hrow'
        exact hshown ⟨rfl, x', hx', e', hxe', hrank, hrow'⟩

end Orders

/-! ## Histories and scans -/

section Lists

variable {changes : List ChangeRecord}

omit [LinearOrder ι] in
/-- Puts of one element are in the order of their time, version and arrival. -/
theorem Keyed.lt_iff (keyed : kind.Keyed) {m m' : LogicalMutation} {row row' : ρ}
    {c c' : ChangeCursor} {key key' : HistoryKey} (hput : kind.put m = some row)
    (hput' : kind.put m' = some row') (hid : kind.id row = kind.id row')
    (hkey : historyKey m c = some key) (hkey' : historyKey m' c' = some key') :
    key < key' ↔ toLex (kind.sortKey row, c) < toLex (kind.sortKey row', c') := by
  rw [keyed.put c hput] at hkey
  rw [keyed.put c' hput'] at hkey'
  cases hkey
  cases hkey'
  rw [hid, HistoryKey.lt_iff_of_same_element, sortKey, sortKey]
  simp only [Prod.Lex.toLex_lt_toLex, EmbeddingLike.apply_eq_iff_eq, Prod.mk.injEq,
    TransactionTime.lt_def, TransactionTime.ext_iff]

theorem historyRow_some {request : HistoryRead ι} {row : ρ}
    (h : kind.historyRow request mutation = some row) :
    kind.put mutation = some row ∧ kind.id row = request.id := by
  obtain ⟨hput, hrow⟩ := Option.filter_eq_some_iff.mp h
  simp only [Bool.and_eq_true, decide_eq_true_eq] at hrow
  exact ⟨hput, hrow.1⟩

/-- The rows of a history with the places they arrived at. -/
def arrivedRows (kind : ElementKind ι ρ) (request : HistoryRead ι) (changes : List ChangeRecord) :
    List (ρ × ChangeCursor) :=
  changes.filterMap fun change =>
    (kind.historyRow request change.mutation).map fun row => (row, change.cursor)

/-- The same rows in the order of the keys. -/
def storedRows (kind : ElementKind ι ρ) (request : HistoryRead ι) (changes : List ChangeRecord) :
    List (ρ × ChangeCursor) :=
  (FjallTables.keyOrder changes).filterMap fun entry =>
    (kind.historyRow request entry.2).map fun row => (row, entry.1.cursor)

theorem sortBy_scanRows (history : List LogicalMutation) (request : ScanRead ι) :
    sortBy kind.id (kind.scanRows history request) = kind.scanRows history request :=
  sortBy_eq_self ((filterMap_visible_ordered ((ids_ordered history).filter _)).imp le_of_lt)

variable {request : HistoryRead ι} (keyed : kind.Keyed) (hordered : InOrder changes)

include keyed hordered

omit keyed in
theorem arrivedRows_ordered :
    (kind.arrivedRows request changes).Pairwise (fun a b => a.2 < b.2) := by
  rw [arrivedRows, List.pairwise_filterMap]
  refine hordered.imp fun {a b} hab x hx y hy => ?_
  obtain ⟨row, -, rfl⟩ := Option.map_eq_some_iff.mp hx
  obtain ⟨row', -, rfl⟩ := Option.map_eq_some_iff.mp hy
  exact hab

theorem storedRows_ordered :
    (kind.storedRows request changes).Pairwise
      (fun a b => toLex (kind.sortKey a.1, a.2) < toLex (kind.sortKey b.1, b.2)) := by
  rw [storedRows, List.pairwise_filterMap]
  refine (keyOrder_ordered changes).imp_of_mem fun {a b} ha hb hab x hx y hy => ?_
  obtain ⟨row, hrow, rfl⟩ := Option.map_eq_some_iff.mp hx
  obtain ⟨row', hrow', rfl⟩ := Option.map_eq_some_iff.mp hy
  obtain ⟨change, -, hkey, hmutation⟩ := (mem_keyOrder hordered).mp ha
  obtain ⟨change', -, hkey', hmutation'⟩ := (mem_keyOrder hordered).mp hb
  obtain ⟨hput, hid⟩ := historyRow_some hrow
  obtain ⟨hput', hid'⟩ := historyRow_some hrow'
  rw [hmutation] at hkey
  rw [hmutation'] at hkey'
  rw [historyKey_cursor hkey, historyKey_cursor hkey']
  exact (keyed.lt_iff hput hput' (hid.trans hid'.symm) hkey hkey').mp hab

theorem storedRows_perm :
    (kind.storedRows request changes).Perm (kind.arrivedRows request changes) := by
  rw [List.perm_ext_iff_of_nodup]
  · rintro ⟨row, cursor⟩
    simp only [storedRows, arrivedRows, List.mem_filterMap, Prod.exists,
      mem_keyOrder hordered, Option.map_eq_some_iff, Prod.mk.injEq]
    constructor
    · rintro ⟨key, mutation, ⟨change, hchange, hkey, rfl⟩, row', hrow, rfl, hcursor⟩
      exact ⟨change, hchange, row', hrow, rfl, (historyKey_cursor hkey).symm.trans hcursor⟩
    · rintro ⟨change, hchange, row', hrow, rfl, rfl⟩
      have hkey := keyed.put change.cursor (historyRow_some hrow).1
      exact ⟨_, _, ⟨change, hchange, hkey, rfl⟩, row', hrow, rfl, rfl⟩
  · refine (storedRows_ordered keyed hordered).imp fun {a b} hab heq => ?_
    rw [heq] at hab
    exact lt_irrefl _ hab
  · refine (arrivedRows_ordered hordered).imp fun {a b} hab heq => ?_
    rw [heq] at hab
    exact lt_irrefl _ hab

/-- The history of an element is the same in both orders. -/
theorem history_eq :
    kind.history ((keyOrder changes).map (·.2)) request =
      kind.history (changes.map (·.mutation)) request := by
  have harrived : (changes.map (·.mutation)).filterMap (kind.historyRow request) =
      (kind.arrivedRows request changes).map Prod.fst := by
    rw [arrivedRows, List.filterMap_map, List.map_filterMap]
    simp [Function.comp_def]
  have hstored : ((keyOrder changes).map (·.2)).filterMap (kind.historyRow request) =
      (kind.storedRows request changes).map Prod.fst := by
    rw [storedRows, List.filterMap_map, List.map_filterMap]
    simp [Function.comp_def]
  have hsorted : (kind.storedRows request changes).Pairwise
      (fun a b => toLex (kind.sortKey a.1, a.2) < toLex (kind.sortKey b.1, b.2)) :=
    storedRows_ordered keyed hordered
  unfold history
  rw [harrived, hstored, ← map_sortBy Prod.fst kind.sortKey, ← map_sortBy Prod.fst kind.sortKey,
    sortBy_eq_of_perm (arrivedRows_ordered hordered) (storedRows_perm keyed hordered) hsorted,
    sortBy_eq_self (hsorted.imp fun {a b} hab => ?_)]
  exact (Prod.Lex.toLex_lt_toLex.mp hab).elim le_of_lt fun h => h.1.le

theorem ids_eq :
    kind.ids ((keyOrder changes).map (·.2)) =
      kind.ids (changes.map (·.mutation)) := by
  refine ids_congr fun mutation htouched => ?_
  have hkey : ∀ cursor, ∃ key, historyKey mutation cursor = some key := by
    intro cursor
    cases hput : kind.put mutation with
    | some => exact ⟨_, keyed.put cursor hput⟩
    | none =>
      rw [touched, hput] at htouched
      obtain ⟨⟨id, time, version⟩, htomb⟩ := Option.isSome_iff_exists.mp
        (Option.isSome_map.symm.trans htouched)
      exact ⟨_, keyed.tombstone cursor htomb⟩
  simp only [List.mem_map, Prod.exists, mem_keyOrder hordered]
  constructor
  · rintro ⟨key, -, ⟨change, hchange, -, rfl⟩, rfl⟩
    exact ⟨change, hchange, rfl⟩
  · rintro ⟨change, hchange, rfl⟩
    obtain ⟨key, hkey⟩ := hkey change.cursor
    exact ⟨key, _, ⟨change, hchange, hkey, rfl⟩, rfl⟩

/-- A scan shows the same rows if its point reads do. -/
theorem scanRows_eq (request : ScanRead ι)
    (hvisible : ∀ id, kind.visible ((keyOrder changes).map (·.2))
        ⟨id, request.validAt, request.transactionAt⟩ =
      kind.visible (changes.map (·.mutation)) ⟨id, request.validAt, request.transactionAt⟩) :
    kind.scanRows ((keyOrder changes).map (·.2)) request =
      kind.scanRows (changes.map (·.mutation)) request := by
  unfold scanRows
  rw [ids_eq keyed hordered]
  exact List.filterMap_congr fun id _ => hvisible id

end Lists

end ElementKind

theorem expandRows_eq {changes : List ChangeRecord}
    (hordered : InOrder changes) (request : AdjacencyRead)
    (hvisible : ∀ id, edges.visible ((keyOrder changes).map (·.2))
        ⟨id, request.validAt, request.transactionAt⟩ =
      edges.visible (changes.map (·.mutation)) ⟨id, request.validAt, request.transactionAt⟩) :
    expandRows ((keyOrder changes).map (·.2)) request =
      expandRows (changes.map (·.mutation)) request := by
  unfold expandRows
  rw [ElementKind.ids_eq edgesKeyed hordered]
  congr 1
  exact List.filterMap_congr fun id _ => hvisible id

theorem sortBy_expandRows (history : List LogicalMutation) (request : AdjacencyRead) :
    sortBy EdgeVersion.id (expandRows history request) = expandRows history request := by
  have hrows : ((edges.ids history).filterMap fun id =>
      edges.visible history ⟨id, request.validAt, request.transactionAt⟩).Pairwise
      (fun a b => edges.id a < edges.id b) :=
    ElementKind.filterMap_visible_ordered (ElementKind.ids_ordered history)
  exact sortBy_eq_self ((hrows.filter _).imp le_of_lt)

end DtgProxy.Storage

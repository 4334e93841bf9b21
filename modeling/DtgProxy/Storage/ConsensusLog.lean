import DtgProxy.Storage.FjallConsensus
import DtgProxy.Storage.ProviderEquivalence

/-! # The law of the consensus log

Every reachable store holds a log: entries under their own, consecutive indices.
An append keeps what is below the first supplied entry that is not stored and
continues with the supplied entries; a read takes the longest prefix of its range
that fits the byte budget.
-/
namespace DtgProxy.Storage.FjallConsensusStore

open Kernel Lib Lib.Segment

variable {log : OrderedMap ℕ ConsensusEntry}
variable {store : FjallConsensusStore}

/-- The keyspace holds the entries of `log`, each under its index. -/
structure Holds (store : FjallConsensusStore) (log : OrderedMap ℕ ConsensusEntry) : Prop where
  owned : store.owner = store.binding
  stored : ∀ i : ℕ, store.raftLog[i]? = log[i]?.map encodeConsensusEntry
  indexed : ∀ (i : ℕ) (entry : ConsensusEntry), log[i]? = some entry → entry.index = i
  contiguous : Contiguous log

theorem holds_create (binding : ReplicaBinding) : (create binding).Holds ∅ where
  owned := rfl
  stored i := by simp [create]
  indexed i entry h := by simp at h
  contiguous := contiguous_empty

theorem mem_iff_lookup {ν : Type} {m : OrderedMap ℕ ν} {i : ℕ} : i ∈ m ↔ ∃ v, m[i]? = some v := by
  rw [← Std.ExtTreeMap.isSome_getElem?_iff_mem, Option.isSome_iff_exists]

section Load

variable {store : FjallConsensusStore} {log : OrderedMap ℕ ConsensusEntry}

theorem Holds.ensureBinding_eq (h : store.Holds log) : store.ensureBinding = .ok () :=
  if_pos h.owned

/-- The stored items are the entries of the log in their stored form. -/
theorem Holds.toList_raftLog (h : store.Holds log) :
    store.raftLog.toList =
      log.toList.map fun entry => (entry.1, encodeConsensusEntry entry.2) := by
  refine OrderedMap.toList_eq_of_ordered ?_ fun i bytes => ?_
  · exact List.pairwise_map.mpr log.ordered_toList
  · rw [h.stored, List.mem_map, Option.map_eq_some_iff]
    constructor
    · rintro ⟨entry, hentry, rfl⟩
      exact ⟨(i, entry), Std.ExtTreeMap.mem_toList_iff_getElem?_eq_some.mpr hentry, rfl⟩
    · rintro ⟨⟨j, entry⟩, hentry, heq⟩
      cases heq
      exact ⟨entry, Std.ExtTreeMap.mem_toList_iff_getElem?_eq_some.mp hentry, rfl⟩

/-- Loading items under new and distinct indices inserts them all. -/
theorem foldlM_loadEntry {items : List (ℕ × ConsensusEntry)}
    (hindexed : ∀ item ∈ items, item.2.index = item.1)
    (hdistinct : (items.map Prod.fst).Nodup) (loaded : OrderedMap ℕ ConsensusEntry)
    (hnew : ∀ item ∈ items, item.1 ∉ loaded) :
    (items.map fun item => (item.1, encodeConsensusEntry item.2)).foldlM loadEntry loaded =
      .ok (items.foldl (fun m item => m.insert item.1 item.2) loaded) := by
  induction items generalizing loaded with
  | nil => rfl
  | cons item items ih =>
    obtain ⟨hitem, hrest⟩ := List.nodup_cons.mp hdistinct
    have hloaded : ¬ (item.2.index ≠ item.1 ∨ loaded.contains item.1 = true) := by
      rintro (hne | hmem)
      · exact hne (hindexed item List.mem_cons_self)
      · exact hnew item List.mem_cons_self (Std.ExtTreeMap.mem_iff_contains.mpr hmem)
    have hstep : loadEntry loaded (item.1, encodeConsensusEntry item.2) =
        .ok (loaded.insert item.1 item.2) := by
      rw [loadEntry, decode_encodeConsensusEntry]
      exact if_neg hloaded
    rw [List.map_cons, List.foldlM_cons, hstep]
    refine ih (fun other hother => hindexed other (List.mem_cons_of_mem _ hother)) hrest _
      fun other hother hmem => ?_
    rw [Std.ExtTreeMap.mem_insert, compare_eq_iff_eq] at hmem
    rcases hmem with heq | hmem
    · exact hitem (heq ▸ List.mem_map_of_mem hother)
    · exact hnew other (List.mem_cons_of_mem _ hother) hmem

theorem Holds.index_lt (h : store.Holds log) {i : ℕ} (hi : i ∈ log) : i < 256 ^ 8 := by
  obtain ⟨entry, hentry⟩ := mem_iff_lookup.mp hi
  rw [← h.indexed i entry hentry]
  exact entry.index_lt

theorem Holds.loadLog_eq (h : store.Holds log) : store.loadLog = .ok log := by
  have hindexed : ∀ item ∈ log.toList, item.2.index = item.1 := fun item hitem =>
    h.indexed _ _ (Std.ExtTreeMap.mem_toList_iff_getElem?_eq_some.mp hitem)
  have hdistinct : (log.toList.map Prod.fst).Nodup :=
    List.pairwise_map.mpr (log.ordered_toList.imp ne_of_lt)
  have hfold := foldlM_loadEntry hindexed hdistinct ∅ (by simp)
  rw [OrderedMap.foldl_insert_toList] at hfold
  rw [loadLog, h.toList_raftLog, hfold]
  refine if_neg (Bool.eq_false_iff.mp ((any_windows_eq_false_iff _).mpr ?_))
  refine h.contiguous.isChain_keys.imp_of_mem_imp fun a b _ hb hab => ?_
  have hlt : b < 256 ^ 8 := h.index_lt (Std.ExtTreeMap.mem_keys.mp hb)
  simpa using saturatingAdd_one_of_lt hlt hab

end Load

/-! ## Appending -/

/-- Each index follows the one before; the largest word follows itself. -/
def Consecutive (entries : List ConsensusEntry) : Prop :=
  entries.IsChain (fun a b => b.index = saturatingAdd a.index 1)

/-- The log is empty, or `start` lies in it or just behind it. -/
def Adjoins (log : OrderedMap ℕ ConsensusEntry) (start : ℕ) : Prop :=
  log = ∅ ∨ (∃ first ∈ log, first ≤ start) ∧ ∃ last ∈ log, start ≤ last + 1

def lastAt (entries : List ConsensusEntry) (i : ℕ) : Option ConsensusEntry :=
  (entries.filter (fun entry => entry.index = i)).getLast?

/-- The log after the entries were supplied.  If all of them are stored nothing
changes, whatever is stored behind them; otherwise the log keeps its entries below
the first that is not and has the supplied ones from there on. -/
structure Appended (log log' : OrderedMap ℕ ConsensusEntry) (entries : List ConsensusEntry) :
    Prop where
  overlap : (∀ entry ∈ entries, log[entry.index]? = some entry) → log' = log
  divergent : ∀ before entry after, entries = before ++ entry :: after →
    (∀ earlier ∈ before, log[earlier.index]? = some earlier) →
    log[entry.index]? ≠ some entry →
    ∀ i : ℕ, log'[i]? = if i < entry.index then log[i]? else lastAt (entry :: after) i

section Append

variable {store : FjallConsensusStore} {log : OrderedMap ℕ ConsensusEntry}
variable {entries : List ConsensusEntry} {entry : ConsensusEntry}
variable {before after : List ConsensusEntry}

theorem Consecutive.pairwise (h : Consecutive entries) :
    entries.Pairwise (fun a b => a.index ≤ b.index) := by
  have hmono : entries.IsChain (fun a b => a.index ≤ b.index) := by
    refine h.imp fun a b hab => ?_
    have ha := a.index_lt
    rw [hab, saturatingAdd, u64Max]
    omega
  exact hmono.pairwise

/-- Consecutive entries cover all indices from the first on, up to some end. -/
theorem Consecutive.indices (h : Consecutive (entry :: entries)) :
    ∃ stop, ∀ i, (∃ e ∈ entry :: entries, e.index = i) ↔ entry.index ≤ i ∧ i < stop := by
  induction entries generalizing entry with
  | nil =>
    refine ⟨entry.index + 1, fun i => ?_⟩
    simp
    omega
  | cons next entries ih =>
    obtain ⟨hnext, hrest⟩ := List.isChain_cons_cons.mp h
    obtain ⟨stop, hstop⟩ := ih hrest
    have hin : next.index < stop := ((hstop next.index).mp ⟨next, List.mem_cons_self, rfl⟩).2
    have hlt := entry.index_lt
    rw [saturatingAdd, u64Max] at hnext
    refine ⟨stop, fun i => ?_⟩
    rw [List.exists_mem_cons_iff, hstop]
    omega

theorem startsOutside_eq_false_iff {start : ℕ} (hstart : start < 256 ^ 8) :
    startsOutside log start = false ↔ Adjoins log start := by
  rw [startsOutside]
  cases hhead : log.keys.head? with
  | none =>
    have hempty : log = ∅ := by
      simpa using hhead
    simp [Adjoins, hempty]
  | some first =>
    obtain ⟨hfirst, hleast⟩ := least_of_head? hhead
    cases hlast : log.keys.getLast? with
    | none =>
      rw [List.getLast?_eq_none_iff] at hlast
      rw [hlast] at hhead
      cases hhead
    | some last =>
      obtain ⟨hlast, hgreatest⟩ := greatest_of_getLast? hlast
      have hne : log ≠ ∅ := by
        rintro rfl
        simp at hfirst
      simp only [Bool.or_eq_false_iff, decide_eq_false_iff_not, lt_saturatingAdd_one_iff hstart,
        Adjoins, hne, false_or]
      constructor
      · rintro ⟨hge, hle⟩
        exact ⟨⟨first, hfirst, by omega⟩, last, hlast, by omega⟩
      · rintro ⟨⟨a, ha, hale⟩, b, hb, hble⟩
        have := hleast a ha
        have := hgreatest b hb
        exact ⟨by omega, by omega⟩

theorem conflictAt_eq_none_iff :
    conflictAt log entry = none ↔ log[entry.index]? = some entry := by
  rw [conflictAt]
  split_ifs with h <;> simp [h]

theorem conflictAt_eq_some_iff {k : ℕ} :
    conflictAt log entry = some k ↔ log[entry.index]? ≠ some entry ∧ entry.index = k := by
  rw [conflictAt]
  split_ifs with h <;> simp [h]

/-- The entries up to the first that is not stored reach back to the log. -/
theorem Adjoins.reach {first : ConsensusEntry} (hadjoins : Adjoins log first.index)
    (hfirst : (before ++ entry :: after).head? = some first)
    (hconsecutive : Consecutive (before ++ entry :: after))
    (hbefore : ∀ earlier ∈ before, log[earlier.index]? = some earlier) :
    log = ∅ ∨ ∃ last ∈ log, entry.index ≤ last + 1 := by
  cases before using List.reverseRecOn with
  | nil =>
    cases hfirst
    exact hadjoins.imp_right And.right
  | append_singleton before earlier =>
    -- the entry follows one that is stored
    have hlink : entry.index = saturatingAdd earlier.index 1 := by
      rw [Consecutive, List.append_assoc] at hconsecutive
      exact (List.isChain_cons_cons.mp (List.isChain_append.mp hconsecutive).2.1).1
    have hstored := hbefore earlier (by simp)
    refine .inr ⟨earlier.index, mem_iff_lookup.mpr ⟨earlier, hstored⟩, ?_⟩
    rw [hlink, saturatingAdd]
    exact Nat.min_le_left _ _

variable {i : ℕ}

/-- Of the entries from an index on, those supplied before it play no part. -/
theorem lastAt_append (hconsecutive : Consecutive (before ++ entry :: after))
    (hi : entry.index ≤ i) :
    lastAt (before ++ entry :: after) i = lastAt (entry :: after) i := by
  rw [lastAt, lastAt, List.filter_append, List.getLast?_append]
  by_cases heq : entry.index = i
  · have hne : (entry :: after).filter (fun e => e.index = i) ≠ [] := by
      rw [List.filter_cons_of_pos (by simpa using heq)]
      exact List.cons_ne_nil _ _
    obtain ⟨last, hlast⟩ := Option.isSome_iff_exists.mp (List.getLast?_isSome.mpr hne)
    rw [hlast]
    rfl
  · have hnone : before.filter (fun e => e.index = i) = [] := by
      rw [List.filter_eq_nil_iff]
      intro earlier hearlier hindex
      have hle := (List.pairwise_append.mp hconsecutive.pairwise).2.2 earlier hearlier entry
        List.mem_cons_self
      have : earlier.index = i := by simpa using hindex
      omega
    rw [hnone, List.getLast?_nil, Option.or_none]

theorem lastAt_isSome_iff :
    (∃ entry, lastAt entries i = some entry) ↔ ∃ entry ∈ entries, entry.index = i := by
  rw [← Option.isSome_iff_exists, lastAt, List.getLast?_isSome, Ne, List.filter_eq_nil_iff]
  simp

theorem index_of_lastAt (h : lastAt entries i = some entry) : entry.index = i := by
  have hmem := List.mem_of_getLast? h
  simpa using (List.mem_filter.mp hmem).2

/-- The log with the entries from the conflict on in place of what it had there. -/
def replaced (log : OrderedMap ℕ ConsensusEntry) (entries : List ConsensusEntry) (conflict : ℕ) :
    OrderedMap ℕ ConsensusEntry :=
  (entries.filter (fun entry => conflict ≤ entry.index)).foldl
    (fun log entry => log.insert entry.index entry)
    ((log.keys.filter (fun index => conflict ≤ index)).foldl (fun log index => log.erase index) log)

theorem lookup_replaced (entries : List ConsensusEntry) (conflict i : ℕ) :
    (replaced log entries conflict)[i]? =
      if i < conflict then log[i]? else lastAt entries i := by
  have h := lookup_replace ConsensusEntry.index id entries log
    (fun i hi => Std.ExtTreeMap.mem_keys.mpr hi) conflict i
  rw [Option.map_id] at h
  exact h

theorem Holds.mem_raftLog (h : store.Holds log) : i ∈ store.raftLog ↔ i ∈ log := by
  simp [mem_iff_lookup, h.stored]

theorem Holds.lookup_replaceFrom (h : store.Holds log) (entries : List ConsensusEntry)
    (conflict i : ℕ) :
    (replaceFrom store.raftLog log entries conflict)[i]? =
      (replaced log entries conflict)[i]?.map encodeConsensusEntry := by
  rw [lookup_replaced, replaceFrom, lookup_replace ConsensusEntry.index encodeConsensusEntry
    entries store.raftLog (fun i hi => Std.ExtTreeMap.mem_keys.mpr (h.mem_raftLog.mp hi)), h.stored]
  split_ifs <;> rfl

/-- Replacing from the first conflict on keeps the log contiguous. -/
theorem Holds.replace (h : store.Holds log) (hconsecutive : Consecutive (before ++ entry :: after))
    (hreach : log = ∅ ∨ ∃ last ∈ log, entry.index ≤ last + 1) :
    (⟨store.binding, store.owner, replaceFrom store.raftLog log (before ++ entry :: after)
      entry.index⟩ : FjallConsensusStore).Holds
      (replaced log (before ++ entry :: after) entry.index) where
  owned := h.owned
  stored i := h.lookup_replaceFrom _ _ i
  indexed i e he := by
    rw [lookup_replaced] at he
    split_ifs at he
    · exact h.indexed i e he
    · exact index_of_lastAt he
  contiguous := by
    have hsuffix : Consecutive (entry :: after) := (List.isChain_append.mp hconsecutive).2.1
    obtain ⟨stop, hstop⟩ := hsuffix.indices
    have hback : ∀ i ∈ log, i < entry.index → entry.index - 1 ∈ log := by
      intro i hi hlt
      rcases hreach with rfl | ⟨last, hlast, hle⟩
      · simp at hi
      · exact h.contiguous.mem hi hlast (by omega) (by omega)
    have hmem : ∀ i, i ∈ replaced log (before ++ entry :: after) entry.index ↔
        (i ∈ log ∧ i < entry.index) ∨ (entry.index ≤ i ∧ i < stop) := by
      intro i
      rw [mem_iff_lookup, mem_iff_lookup, lookup_replaced]
      by_cases hi : i < entry.index
      · simp only [hi, if_true, and_true, Nat.not_le.mpr hi, false_and, or_false]
      · rw [if_neg hi, lastAt_append hconsecutive (not_lt.mp hi), lastAt_isSome_iff, hstop]
        simp [hi]
    exact h.contiguous.splice hback hmem

/-- The entries an append takes. -/
structure Acceptable (log : OrderedMap ℕ ConsensusEntry) (entries : List ConsensusEntry) :
    Prop where
  consecutive : Consecutive entries
  adjoins : ∀ first, entries.head? = some first → Adjoins log first.index

theorem windows_entries_eq_false_iff :
    (windows entries).any (fun (left, right) => right.index ≠ saturatingAdd left.index 1) = false ↔
      Consecutive entries := by
  rw [any_windows_eq_false_iff, Consecutive]
  simp

theorem Holds.append_rejects (h : store.Holds log)
    (hnot : ¬ Acceptable log entries) : ∃ e, store.append entries = .error e := by
  simp only [append, h.ensureBinding_eq, h.loadLog_eq, Bind.bind, Except.bind]
  by_cases hconsecutive : Consecutive entries
  · obtain ⟨first, hfirst, houtside⟩ :
        ∃ first, entries.head? = some first ∧ ¬ Adjoins log first.index := by
      by_contra hall
      push Not at hall
      exact hnot ⟨hconsecutive, hall⟩
    rw [if_neg (by rw [windows_entries_eq_false_iff.mpr hconsecutive]; decide), hfirst]
    rw [← startsOutside_eq_false_iff first.index_lt, Bool.not_eq_false] at houtside
    simp only [if_pos houtside]
    exact ⟨_, rfl⟩
  · rw [← windows_entries_eq_false_iff, Bool.not_eq_false] at hconsecutive
    rw [if_pos hconsecutive]
    exact ⟨_, rfl⟩

theorem Holds.append_accepts (h : store.Holds log) (hacceptable : Acceptable log entries) :
    ∃ store' log', store.append entries = .ok store' ∧ store'.Holds log' ∧
      Appended log log' entries := by
  simp only [append, h.ensureBinding_eq, h.loadLog_eq, Bind.bind, Except.bind]
  rw [if_neg (by rw [windows_entries_eq_false_iff.mpr hacceptable.consecutive]; decide)]
  cases hhead : entries.head? with
  | none =>
    obtain rfl := List.head?_eq_none_iff.mp hhead
    exact ⟨store, log, rfl, h, fun _ => rfl, fun _ _ _ hsplit => by simp at hsplit⟩
  | some first =>
    have hadjoins := hacceptable.adjoins first hhead
    simp only [(startsOutside_eq_false_iff first.index_lt).mpr hadjoins, Bool.false_eq_true,
      if_false]
    cases hconflict : entries.findSome? (conflictAt log) with
    | none =>
      have hall : ∀ entry ∈ entries, log[entry.index]? = some entry := fun entry hentry =>
        conflictAt_eq_none_iff.mp (List.findSome?_eq_none_iff.mp hconflict entry hentry)
      refine ⟨store, log, rfl, h, fun _ => rfl, fun before entry after hsplit _ hne => ?_⟩
      exact absurd (hall entry (by rw [hsplit]; simp)) hne
    | some =>
      obtain ⟨before, entry, after, rfl, hentry, hbefore⟩ :=
        List.findSome?_eq_some_iff.mp hconflict
      obtain ⟨hne, rfl⟩ := conflictAt_eq_some_iff.mp hentry
      have hstored : ∀ earlier ∈ before, log[earlier.index]? = some earlier :=
        fun earlier hearlier => conflictAt_eq_none_iff.mp (hbefore earlier hearlier)
      have hreach := hadjoins.reach hhead hacceptable.consecutive hstored
      have hgap : ¬ (log.keys.getLast?.any
          (fun last => saturatingAdd last 1 < entry.index)) = true := by
        rw [Option.any_eq_true]
        rintro ⟨last, hlast, hlt⟩
        obtain ⟨hmem, hgreatest⟩ := greatest_of_getLast? hlast
        rw [decide_eq_true_eq, lt_saturatingAdd_one_iff entry.index_lt] at hlt
        rcases hreach with rfl | ⟨other, hother, hle⟩
        · simp at hmem
        · have := hgreatest other hother
          omega
      refine ⟨_, _, if_neg hgap, h.replace hacceptable.consecutive hreach, ?_, ?_⟩
      · intro hall
        exact absurd (hall entry (by simp)) hne
      · intro before' entry' after' hsplit hbefore' hne' i
        -- the first entry that is not stored is the same in both readings
        obtain ⟨rfl, rfl, rfl⟩ := split_unique (p := fun e => log[e.index]? = some e)
          hsplit hstored hne hbefore' hne'
        rw [lookup_replaced]
        split_ifs with hi
        · rfl
        · exact lastAt_append hacceptable.consecutive (not_lt.mp hi)

end Append

theorem Holds.truncateSuffix (h : store.Holds log) {fromIndex : ℕ} (hfrom : fromIndex ≠ 0) :
    ∃ store' log', store.truncateSuffix fromIndex = .ok store' ∧ store'.Holds log' ∧
      ∀ i : ℕ, log'[i]? = if i < fromIndex then log[i]? else none := by
  let kept := (log.keys.filter (fun index => fromIndex ≤ index)).foldl
    (fun log index => log.erase index) log
  have hkept : ∀ i : ℕ, kept[i]? = if i < fromIndex then log[i]? else none :=
    lookup_cut log (fun i hi => Std.ExtTreeMap.mem_keys.mpr hi) fromIndex
  have hstored : ∀ i : ℕ, ((store.raftLog.keys.filter (fun index => fromIndex ≤ index)).foldl
      (fun log index => log.erase index) store.raftLog)[i]? =
        kept[i]?.map encodeConsensusEntry := by
    intro i
    rw [hkept, lookup_cut store.raftLog (fun i hi => Std.ExtTreeMap.mem_keys.mpr hi), h.stored]
    split_ifs <;> rfl
  have hmem : ∀ i, i ∈ kept ↔ i ∈ log ∧ i < fromIndex := by
    intro i
    rw [mem_iff_lookup, mem_iff_lookup, hkept]
    split_ifs with hi <;> simp [hi]
  have hrun : store.truncateSuffix fromIndex = .ok ⟨store.binding, store.owner,
      (store.raftLog.keys.filter (fun index => fromIndex ≤ index)).foldl
        (fun log index => log.erase index) store.raftLog⟩ := by
    simp only [FjallConsensusStore.truncateSuffix, h.ensureBinding_eq, Bind.bind, Except.bind,
      if_neg hfrom]
  refine ⟨_, kept, hrun, ⟨h.owned, hstored, fun i entry hentry => ?_, h.contiguous.below hmem⟩,
    hkept⟩
  rw [hkept] at hentry
  split_ifs at hentry
  exact h.indexed i entry hentry

/-! ## Reading -/

/-- The stored entries of a range of indices, in order. -/
def rangeOf (log : OrderedMap ℕ ConsensusEntry) (low high : ℕ) : List ConsensusEntry :=
  (log.toList.filter (fun item => low ≤ item.1 ∧ item.1 < high)).map Prod.snd

def encodedSize (entry : ConsensusEntry) : ℕ := (encodeConsensusEntry entry).length

/-- The sum of sizes, capped at the largest word, is within the budget. -/
def fitsBudget (maxBytes total : ℕ) : Bool := min total u64Max ≤ maxBytes

theorem fitsBudget_of_le {maxBytes a b : ℕ} (hab : a ≤ b) (hb : fitsBudget maxBytes b = true) :
    fitsBudget maxBytes a = true := by
  simp only [fitsBudget, decide_eq_true_eq] at hb ⊢
  omega

/-- The loop over consecutive items takes entries as long as they fit. -/
theorem readItems_eq {maxBytes : ℕ} {items : List (ℕ × ConsensusEntry)}
    (hindexed : ∀ item ∈ items, item.2.index = item.1)
    (hchain : (items.map Prod.fst).IsChain (fun a b => b = a + 1)) (used : ℕ) (previous : Option ℕ)
    (hlink : ∀ p ∈ previous, ∀ item ∈ items.head?, item.1 = p + 1) :
    readItems maxBytes used previous
        (items.map fun item => (item.1, encodeConsensusEntry item.2)) =
      .ok (takeWithin encodedSize (fitsBudget maxBytes) used (items.map Prod.snd)) := by
  induction items generalizing used previous with
  | nil => rfl
  | cons item items ih =>
    rw [List.map_cons, List.map_cons, readItems, takeWithin]
    have hfits : maxBytes < saturatingAdd used (encodeConsensusEntry item.2).length ↔
        ¬ fitsBudget maxBytes (used + encodedSize item.2) = true := by
      simp [fitsBudget, saturatingAdd, encodedSize]
    by_cases hfit : fitsBudget maxBytes (used + encodedSize item.2) = true
    · have hread : ¬ (item.2.index ≠ item.1 ∨
          (previous.any fun p => item.1 ≠ p + 1) = true) := by
        rintro (hne | hany)
        · exact hne (hindexed item List.mem_cons_self)
        · obtain ⟨p, hp, hne⟩ := (Option.any_eq_true _ _).mp hany
          exact (of_decide_eq_true hne) (hlink p hp item rfl)
      have hnext : ∀ p ∈ some item.1, ∀ other ∈ items.head?, other.1 = p + 1 := by
        rintro p hp other hother
        cases hp
        obtain ⟨rest, rfl⟩ := List.head?_eq_some_iff.mp hother
        exact (List.isChain_cons_cons.mp hchain).1
      rw [if_neg (fun hlt => hfits.mp hlt hfit), if_pos hfit, decode_encodeConsensusEntry]
      have hrest := ih (fun other hother => hindexed other (List.mem_cons_of_mem _ hother))
        hchain.tail (used + encodedSize item.2) (some item.1) hnext
      simp only [Bind.bind, Except.bind, if_neg hread]
      rw [encodedSize] at hrest
      rw [hrest]
      rfl
    · rw [if_pos (hfits.mpr hfit), if_neg hfit]

theorem Holds.entries_eq (h : store.Holds log) {low high maxBytes : ℕ} (hrange : low ≤ high)
    (hbytes : maxBytes ≠ 0) :
    store.entries low high maxBytes =
      .ok (takeWithin encodedSize (fitsBudget maxBytes) 0 (rangeOf log low high)) := by
  have hitems : store.raftLog.toList.filter (fun item => low ≤ item.1 ∧ item.1 < high) =
      (log.toList.filter (fun item => low ≤ item.1 ∧ item.1 < high)).map
        (fun item => (item.1, encodeConsensusEntry item.2)) := by
    rw [h.toList_raftLog, List.filter_map]
    rfl
  have hkeys : (log.toList.filter (fun item => low ≤ item.1 ∧ item.1 < high)).map Prod.fst =
      log.keys.filter (fun i => low ≤ i ∧ i < high) := by
    rw [← Std.ExtTreeMap.map_fst_toList_eq_keys, List.filter_map]
    rfl
  have hchain := h.contiguous.isChain_range low high
  rw [← hkeys] at hchain
  have hindexed : ∀ item ∈ log.toList.filter (fun item => low ≤ item.1 ∧ item.1 < high),
      item.2.index = item.1 := fun item hitem => h.indexed _ _
    (Std.ExtTreeMap.mem_toList_iff_getElem?_eq_some.mp (List.mem_filter.mp hitem).1)
  simp only [entries, h.ensureBinding_eq, Bind.bind, Except.bind]
  rw [if_neg (by omega), hitems, readItems_eq hindexed hchain 0 none (by simp)]
  rfl

/-! ## Runs -/

theorem Holds.step (h : store.Holds log) (op : LogOp) : ∃ log', (store.step op).Holds log' := by
  cases op with
  | append entries =>
    by_cases hacceptable : Acceptable log entries
    · obtain ⟨store', log', hrun, hholds, -⟩ := h.append_accepts hacceptable
      exact ⟨log', by rw [FjallConsensusStore.step, hrun]; exact hholds⟩
    · obtain ⟨e, hrun⟩ := h.append_rejects hacceptable
      exact ⟨log, by rw [FjallConsensusStore.step, hrun]; exact h⟩
  | truncateSuffix fromIndex =>
    by_cases hfrom : fromIndex = 0
    · have hrun : store.truncateSuffix fromIndex =
          .error (.invalidConsensus "consensus truncation index must be nonzero") := by
        simp only [FjallConsensusStore.truncateSuffix, h.ensureBinding_eq, Bind.bind, Except.bind,
          if_pos hfrom]
      exact ⟨log, by rw [FjallConsensusStore.step, hrun]; exact h⟩
    · obtain ⟨store', log', hrun, hholds, -⟩ := h.truncateSuffix hfrom
      exact ⟨log', by rw [FjallConsensusStore.step, hrun]; exact hholds⟩
  | entries => exact ⟨log, h⟩

theorem run_holds (binding : ReplicaBinding) (ops : List LogOp) :
    ∃ log, (run binding ops).Holds log := by
  suffices hrun : ∀ store, (∃ log, Holds store log) → ∃ log, (ops.foldl step store).Holds log from
    hrun _ ⟨∅, holds_create binding⟩
  induction ops with
  | nil => exact fun store h => h
  | cons op ops ih =>
    rintro store ⟨log, h⟩
    exact ih (store.step op) (h.step op)

/-- Whatever was appended, truncated and read, the store holds a contiguous log.
An append takes exactly the consecutive entries that adjoin it and gives the log of
`Appended`; a truncation cuts it; and a read returns the longest prefix of the range
that fits the budget, which is empty when its first entry already does not. -/
theorem log_law (binding : ReplicaBinding) (ops : List LogOp) :
    ∃ log, (run binding ops).Holds log ∧
      (∀ supplied, Acceptable log supplied →
        ∃ store' log', (run binding ops).append supplied = .ok store' ∧ store'.Holds log' ∧
          Appended log log' supplied) ∧
      (∀ supplied, ¬ Acceptable log supplied →
        ∃ e, (run binding ops).append supplied = .error e) ∧
      (∀ fromIndex, fromIndex ≠ 0 →
        ∃ store' log', (run binding ops).truncateSuffix fromIndex = .ok store' ∧
          store'.Holds log' ∧
          ∀ i : ℕ, log'[i]? = if i < fromIndex then log[i]? else none) ∧
      ∀ low high maxBytes, low ≤ high → maxBytes ≠ 0 →
        ∃ rows, (run binding ops).entries low high maxBytes = .ok rows ∧
          LongestPrefix (fun rows => fitsBudget maxBytes (rows.map encodedSize).sum = true) rows
            (rangeOf log low high) ∧
          (rows = [] ↔
            ∀ first ∈ (rangeOf log low high).head?,
              fitsBudget maxBytes (encodedSize first) = false) := by
  obtain ⟨log, h⟩ := run_holds binding ops
  refine ⟨log, h, fun supplied => h.append_accepts, fun supplied => h.append_rejects,
    fun fromIndex => h.truncateSuffix, fun low high maxBytes hrange hbytes => ?_⟩
  have hnone : fitsBudget maxBytes 0 = true := by simp [fitsBudget]
  have hdown : ∀ a b, a ≤ b → fitsBudget maxBytes b = true → fitsBudget maxBytes a = true :=
    fun _ _ => fitsBudget_of_le
  have hlongest : LongestPrefix (fun rows => fitsBudget maxBytes (rows.map encodedSize).sum = true)
      (takeWithin encodedSize (fitsBudget maxBytes) 0 (rangeOf log low high))
      (rangeOf log low high) := by
    simpa only [Nat.zero_add] using takeWithin_longest hdown hnone (rangeOf log low high)
  refine ⟨_, h.entries_eq hrange hbytes, hlongest, ?_⟩
  rw [takeWithin_eq_nil_iff]
  simp only [Nat.zero_add]

/-- The entry with index five of a new log. -/
def sampleEntry : ConsensusEntry :=
  ⟨1, 1, 5, 9, ⟨1, [7], rfl, by decide, by decide⟩, rfl, Nat.one_ne_zero, by decide, by decide,
    by decide⟩

/-- A stored entry larger than the budget is not returned. -/
theorem entries_within_one_byte :
    (run (sampleBinding .fjall) [.append [sampleEntry]]).entries 5 6 1 = .ok [] ∧
      (run (sampleBinding .fjall) [.append [sampleEntry]]).entries 5 6 8 = .ok [sampleEntry] := by
  decide +kernel

end DtgProxy.Storage.FjallConsensusStore

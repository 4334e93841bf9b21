import Mathlib

/-! # Finite maps ordered by their keys

Extensional search trees over a linear order.  Two maps with the same entries
are equal, and iteration follows the key order, as in a B-tree map.
-/
namespace DtgProxy.Lib

variable {κ : Type*} {ν : Type*} [LinearOrder κ]

instance instLawfulEqCmpCompare : Std.LawfulEqCmp (compare : κ → κ → Ordering) where
  compare_self := compare_eq_iff_eq.mpr rfl
  eq_of_compare h := compare_eq_iff_eq.mp h

/-- A finite map whose entries are visited in ascending key order. -/
abbrev OrderedMap (κ : Type*) (ν : Type*) [LinearOrder κ] := Std.ExtTreeMap κ ν compare

namespace OrderedMap

variable (m : OrderedMap κ ν)

theorem lookup_insert (k a : κ) (v : ν) :
    (m.insert k v)[a]? = if k = a then some v else m[a]? := by
  rw [Std.ExtTreeMap.getElem?_insert]
  simp only [compare_eq_iff_eq]

theorem lookup_insert_self (k : κ) (v : ν) : (m.insert k v)[k]? = some v := by
  simp

theorem lookup_insert_of_ne {k a : κ} (v : ν) (h : k ≠ a) :
    (m.insert k v)[a]? = m[a]? := by
  rw [lookup_insert, if_neg h]

/-- Inserting what is there changes nothing. -/
theorem insert_eq_self {m : OrderedMap κ ν} {k : κ} {v : ν} (h : m[k]? = some v) :
    m.insert k v = m := by
  apply Std.ExtTreeMap.ext_getElem?
  intro a
  rw [lookup_insert]
  split_ifs with hka
  · rw [← hka, h]
  · rfl

theorem lookup_erase (k a : κ) :
    (m.erase k)[a]? = if k = a then none else m[a]? := by
  rw [Std.ExtTreeMap.getElem?_erase]
  simp only [compare_eq_iff_eq]

theorem ordered_toList :
    m.toList.Pairwise (fun a b => a.1 < b.1) :=
  Std.ExtTreeMap.ordered_keys_toList.imp compare_lt_iff_lt.mp

theorem mem_values {m : OrderedMap κ ν} {v : ν} :
    v ∈ m.toList.map (·.2) ↔ ∃ k : κ, m[k]? = some v := by
  simp [Std.ExtTreeMap.mem_toList_iff_getElem?_eq_some]

/-- Entries under distinct keys are all found after they are inserted. -/
theorem lookup_foldl_insert (entries : List (κ × ν)) (m : OrderedMap κ ν)
    (hdistinct : (entries.map Prod.fst).Nodup) (k : κ) (v : ν) :
    (entries.foldl (fun m entry => m.insert entry.1 entry.2) m)[k]? = some v ↔
      (k, v) ∈ entries ∨ (k ∉ entries.map Prod.fst ∧ m[k]? = some v) := by
  induction entries generalizing m with
  | nil => simp
  | cons entry entries ih =>
    obtain ⟨j, w⟩ := entry
    rw [List.map_cons, List.nodup_cons] at hdistinct
    rw [List.foldl_cons, ih _ hdistinct.2, lookup_insert]
    by_cases hjk : j = k
    · subst hjk
      have hnot : j ∉ entries.map Prod.fst := hdistinct.1
      have hnotv : (j, v) ∉ entries := fun hmem => hnot (List.mem_map_of_mem hmem)
      simp [hnot, hnotv, eq_comm]
    · simp [hjk, Ne.symm hjk]

/-- The entries of a map are the only ascending list of what it holds. -/
theorem toList_eq_of_ordered {m : OrderedMap κ ν} {entries : List (κ × ν)}
    (hordered : entries.Pairwise (fun a b => a.1 < b.1))
    (hmem : ∀ k v, m[k]? = some v ↔ (k, v) ∈ entries) : m.toList = entries := by
  refine List.Perm.eq_of_pairwise (fun a b _ _ hab hba => absurd hba (lt_asymm hab))
    m.ordered_toList hordered ?_
  have hnodup : ∀ xs : List (κ × ν), xs.Pairwise (fun a b => a.1 < b.1) → xs.Nodup := by
    intro xs hxs
    refine hxs.imp fun {a b} hab heq => ?_
    rw [heq] at hab
    exact lt_irrefl _ hab
  rw [List.perm_ext_iff_of_nodup (hnodup _ m.ordered_toList) (hnodup _ hordered)]
  rintro ⟨k, v⟩
  rw [Std.ExtTreeMap.mem_toList_iff_getElem?_eq_some, hmem]

/-- Inserting the entries of a map one by one rebuilds it. -/
theorem foldl_insert_toList :
    m.toList.foldl (fun m entry => m.insert entry.1 entry.2) ∅ = m := by
  apply Std.ExtTreeMap.ext_getElem?
  intro k
  apply Option.ext
  intro v
  have hdistinct : (m.toList.map Prod.fst).Nodup :=
    List.pairwise_map.mpr (m.ordered_toList.imp ne_of_lt)
  rw [lookup_foldl_insert _ _ hdistinct, Std.ExtTreeMap.mem_toList_iff_getElem?_eq_some]
  simp

/-- Some value of the map satisfies `p`; the scan follows the key order. -/
def anyValue (m : OrderedMap κ ν) (p : ν → Bool) : Bool :=
  m.toList.any (fun entry => p entry.2)

theorem anyValue_iff (p : ν → Bool) :
    anyValue m p = true ↔ ∃ (k : κ) (v : ν), m[k]? = some v ∧ p v = true := by
  rw [anyValue, List.any_eq_true]
  constructor
  · rintro ⟨⟨k, v⟩, hmem, hp⟩
    exact ⟨k, v, Std.ExtTreeMap.mem_toList_iff_getElem?_eq_some.mp hmem, hp⟩
  · rintro ⟨k, v, hget, hp⟩
    exact ⟨(k, v), Std.ExtTreeMap.mem_toList_iff_getElem?_eq_some.mpr hget, hp⟩

theorem anyValue_eq_false_iff (p : ν → Bool) :
    anyValue m p = false ↔ ∀ (k : κ) (v : ν), m[k]? = some v → p v = false := by
  rw [← Bool.not_eq_true, anyValue_iff]
  simp only [not_exists, not_and, Bool.not_eq_true]

end OrderedMap

/-! ## Maps of groups

Every value stands in the group of its anchor and there under its name, and no name is held
twice.  A name is then looked up without knowing its group.
-/
namespace GroupedMap

open OrderedMap

variable {κ ι ν : Type*} [LinearOrder κ] [LinearOrder ι]

/-- Takes a name out of every group where its value meets the test; no group stays empty. -/
def strike (groups : OrderedMap κ (OrderedMap ι ν)) (i : ι) (test : ν → Bool) :
    OrderedMap κ (OrderedMap ι ν) :=
  groups.filterMap fun _ group =>
    let left := if group[i]?.any test then group.erase i else group
    if left.isEmpty then none else some left

def put (groups : OrderedMap κ (OrderedMap ι ν)) (k : κ) (i : ι) (v : ν) :
    OrderedMap κ (OrderedMap ι ν) :=
  groups.insert k ((groups[k]?.getD ∅).insert i v)

/-- The entries of all groups. -/
def entries (groups : OrderedMap κ (OrderedMap ι ν)) : List (ι × ν) :=
  groups.toList.flatMap fun group => group.2.toList

/-- The value of a name in a group. -/
def at? (groups : OrderedMap κ (OrderedMap ι ν)) (k : κ) (i : ι) : Option ν :=
  groups[k]?.bind (·[i]?)

/-- The value of a name, in whatever group. -/
def find? (groups : OrderedMap κ (OrderedMap ι ν)) (i : ι) : Option ν :=
  groups.toList.findSome? fun group => group.2[i]?

/-- Values stand under their anchor and name, and no name is held twice. -/
structure Placed (anchor : ν → κ) (name : ν → ι) (groups : OrderedMap κ (OrderedMap ι ν)) :
    Prop where
  held : ∀ {k i v}, at? groups k i = some v → anchor v = k ∧ name v = i
  once : ∀ {k k' i v v'}, at? groups k i = some v → at? groups k' i = some v' → k = k'

variable {groups : OrderedMap κ (OrderedMap ι ν)} {anchor : ν → κ} {name : ν → ι}
variable {k : κ} {i : ι} {v : ν}

theorem at?_eq_some_iff :
    at? groups k i = some v ↔ ∃ group : OrderedMap ι ν, groups[k]? = some group ∧ group[i]? = some v :=
  Option.bind_eq_some_iff

theorem lookup_getD (groups : OrderedMap κ (OrderedMap ι ν)) (k : κ) (i : ι) :
    (groups[k]?.getD ∅)[i]? = at? groups k i := by
  cases hget : groups[k]? with
  | none => simp [at?, hget]
  | some => simp [at?, hget]

theorem at?_strike (test : ν → Bool) (j : ι) :
    at? (strike groups i test) k j =
      if i = j then (at? groups k i).filter fun v => !test v else at? groups k j := by
  have hnonempty : ∀ left : OrderedMap ι ν,
      (if left.isEmpty then none else some left).bind (·[j]?) = left[j]? := by
    intro left
    split_ifs with hempty
    · simp [Std.ExtTreeMap.isEmpty_iff.mp hempty]
    · rfl
  rw [at?, at?, at?, strike, Std.ExtTreeMap.getElem?_filterMap']
  cases groups[k]? with
  | none => simp
  | some group =>
    simp only [Option.bind_some, hnonempty]
    cases hget : group[i]? with
    | none =>
      by_cases hij : i = j
      · simp [← hij, hget]
      · simp [hij]
    | some w =>
      by_cases htest : test w = true
      · simp [htest, lookup_erase, Option.filter]
      · by_cases hij : i = j
        · simp [htest, ← hij, hget, Option.filter]
        · simp [htest, hij]

theorem at?_put (l : κ) (j : ι) :
    at? (put groups k i v) l j = if k = l ∧ i = j then some v else at? groups l j := by
  rw [at?, at?, put, lookup_insert]
  by_cases hkl : k = l
  · subst hkl
    cases hget : groups[k]? with
    | none => simp [lookup_insert]
    | some => simp [lookup_insert]
  · simp [hkl]

theorem exists_at?_of_find? (h : find? groups i = some v) : ∃ k, at? groups k i = some v := by
  obtain ⟨⟨k, group⟩, hmem, hget⟩ := List.exists_of_findSome?_eq_some h
  have hgroup := Std.ExtTreeMap.mem_toList_iff_getElem?_eq_some.mp hmem
  exact ⟨k, at?_eq_some_iff.mpr ⟨group, hgroup, hget⟩⟩

theorem placed_empty : Placed anchor name (∅ : OrderedMap κ (OrderedMap ι ν)) :=
  ⟨by simp [at?], by simp [at?]⟩

namespace Placed

variable (h : Placed anchor name groups)

include h

/-- A name is found where it is. -/
theorem find?_eq_some_iff : find? groups i = some v ↔ at? groups (anchor v) i = some v := by
  constructor
  · intro hfind
    obtain ⟨k, hat⟩ := exists_at?_of_find? hfind
    rwa [(h.held hat).1]
  · intro hat
    cases hfind : find? groups i with
    | none =>
      obtain ⟨group, hgroup, hget⟩ := at?_eq_some_iff.mp hat
      have hnone := List.findSome?_eq_none_iff.mp hfind _
        (Std.ExtTreeMap.mem_toList_iff_getElem?_eq_some.mpr hgroup)
      rw [hget] at hnone
      cases hnone
    | some w =>
      obtain ⟨k, hother⟩ := exists_at?_of_find? hfind
      rw [h.once hother hat, hat] at hother
      exact hother.symm

theorem at?_iff : at? groups k i = some v ↔ find? groups i = some v ∧ anchor v = k := by
  rw [h.find?_eq_some_iff]
  constructor
  · intro hat
    rw [(h.held hat).1]
    exact ⟨hat, rfl⟩
  · rintro ⟨hat, rfl⟩
    exact hat

theorem name_of_find? (hfind : find? groups i = some v) : name v = i :=
  (h.held (h.find?_eq_some_iff.mp hfind)).2

theorem anyValue_eq (test : ν → Bool) :
    anyValue groups (fun group => group[i]?.any test) = (find? groups i).any test := by
  rw [Bool.eq_iff_iff, anyValue_iff, Option.any_eq_true]
  constructor
  · rintro ⟨k, group, hgroup, htest⟩
    obtain ⟨v, hget, htest⟩ := (Option.any_eq_true _ _).mp htest
    exact ⟨v, (h.at?_iff.mp (at?_eq_some_iff.mpr ⟨group, hgroup, hget⟩)).1, htest⟩
  · rintro ⟨v, hfind, htest⟩
    obtain ⟨group, hgroup, hget⟩ := at?_eq_some_iff.mp (h.find?_eq_some_iff.mp hfind)
    exact ⟨anchor v, group, hgroup, (Option.any_eq_true _ _).mpr ⟨v, hget, htest⟩⟩

theorem anyValue_isSome :
    anyValue groups (fun group => group[i]?.isSome) = (find? groups i).isSome := by
  have hany := h.anyValue_eq (i := i) fun _ => true
  simpa only [Option.any_true] using hany

/-- Striking takes entries out only. -/
theorem strike (i : ι) (test : ν → Bool) : Placed anchor name (strike groups i test) := by
  have hold : ∀ {k j v}, at? (GroupedMap.strike groups i test) k j = some v →
      at? groups k j = some v := by
    intro k j v hat
    rw [at?_strike] at hat
    split_ifs at hat with hij
    · rw [← hij]
      exact (Option.filter_eq_some_iff.mp hat).1
    · exact hat
  exact ⟨fun hat => h.held (hold hat), fun hat hat' => h.once (hold hat) (hold hat')⟩

theorem find?_strike (test : ν → Bool) (j : ι) :
    find? (GroupedMap.strike groups i test) j =
      if i = j then (find? groups i).filter fun v => !test v else find? groups j := by
  ext v
  rw [(h.strike i test).find?_eq_some_iff, at?_strike]
  split_ifs with hij
  · rw [Option.filter_eq_some_iff, Option.filter_eq_some_iff, h.find?_eq_some_iff]
  · rw [h.find?_eq_some_iff]

/-- A value takes its place once its name is struck. -/
theorem replace (v : ν) :
    Placed anchor name
      (put (GroupedMap.strike groups (name v) fun _ => true) (anchor v) (name v) v) := by
  have hold : ∀ {k j w}, at? (put (GroupedMap.strike groups (name v) fun _ => true) (anchor v)
      (name v) v) k j = some w → (k = anchor v ∧ j = name v ∧ w = v) ∨
        (j ≠ name v ∧ at? groups k j = some w) := by
    intro k j w hat
    rw [at?_put, at?_strike] at hat
    split_ifs at hat with hnew hname
    · exact Or.inl ⟨hnew.1.symm, hnew.2.symm, (Option.some.inj hat).symm⟩
    · simp at hat
    · exact Or.inr ⟨Ne.symm hname, hat⟩
  refine ⟨fun hat => ?_, fun hat hat' => ?_⟩
  · rcases hold hat with ⟨rfl, rfl, rfl⟩ | ⟨-, hat⟩
    · exact ⟨rfl, rfl⟩
    · exact h.held hat
  · rcases hold hat with ⟨rfl, rfl, -⟩ | ⟨hne, hat⟩
    · rcases hold hat' with ⟨rfl, -, -⟩ | ⟨hne, -⟩
      · rfl
      · exact absurd rfl hne
    · rcases hold hat' with ⟨-, rfl, -⟩ | ⟨-, hat'⟩
      · exact absurd rfl hne
      · exact h.once hat hat'

theorem find?_replace (v : ν) (j : ι) :
    find? (put (GroupedMap.strike groups (name v) fun _ => true) (anchor v) (name v) v) j =
      if name v = j then some v else find? groups j := by
  ext w
  rw [(h.replace v).find?_eq_some_iff, at?_put, at?_strike]
  split_ifs with hnew hname hname
  · rfl
  · exact absurd hnew.2 hname
  · rw [Option.filter_eq_some_iff, Option.some.injEq]
    refine iff_of_false (fun hat => absurd hat.2 (by simp)) ?_
    rintro rfl
    exact hnew ⟨rfl, hname⟩
  · rw [h.find?_eq_some_iff]

theorem mem_entries : (i, v) ∈ entries groups ↔ find? groups i = some v := by
  rw [h.find?_eq_some_iff, entries, List.mem_flatMap]
  constructor
  · rintro ⟨⟨k, group⟩, hmem, hentry⟩
    have hat : at? groups k i = some v := at?_eq_some_iff.mpr
      ⟨group, Std.ExtTreeMap.mem_toList_iff_getElem?_eq_some.mp hmem,
        Std.ExtTreeMap.mem_toList_iff_getElem?_eq_some.mp hentry⟩
    rwa [(h.held hat).1]
  · intro hat
    obtain ⟨group, hgroup, hget⟩ := at?_eq_some_iff.mp hat
    exact ⟨(anchor v, group), Std.ExtTreeMap.mem_toList_iff_getElem?_eq_some.mpr hgroup,
      Std.ExtTreeMap.mem_toList_iff_getElem?_eq_some.mpr hget⟩

theorem nodup_entries : ((entries groups).map Prod.fst).Nodup := by
  rw [entries, List.map_flatMap, List.nodup_flatMap]
  constructor
  · intro group _
    exact List.pairwise_map.mpr (group.2.ordered_toList.imp ne_of_lt)
  · refine groups.ordered_toList.imp_of_mem fun {a b} ha hb hlt => ?_
    intro i hi hi'
    obtain ⟨⟨i, v⟩, hentry, rfl⟩ := List.mem_map.mp hi
    obtain ⟨⟨_, v'⟩, hentry', rfl⟩ := List.mem_map.mp hi'
    rw [Std.ExtTreeMap.mem_toList_iff_getElem?_eq_some] at ha hb hentry hentry'
    exact hlt.ne (h.once (at?_eq_some_iff.mpr ⟨a.2, ha, hentry⟩)
      (at?_eq_some_iff.mpr ⟨b.2, hb, hentry'⟩))

end Placed

end GroupedMap

end DtgProxy.Lib

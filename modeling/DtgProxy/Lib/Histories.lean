import DtgProxy.Lib.OrderedMap

/-! # Histories by key

Items kept in lists by a key they carry.  A history is never empty and holds only
items of its key.  Edits append an item to its history or remove a history; as
long as no key is both appended to and removed, what a history comes to depends on
the order of the edits only through the order of its own items.
-/
namespace DtgProxy.Lib

variable {κ α : Type} [LinearOrder κ] {key : α → κ}

/-- Nonempty lists of items under their key. -/
structure Histories (key : α → κ) where
  entries : OrderedMap κ (List α)
  nonempty : ∀ (k : κ) history, entries[k]? = some history → history ≠ []
  keyed : ∀ (k : κ) history, entries[k]? = some history → ∀ item ∈ history, key item = k

/-- One edit of the histories. -/
inductive HistoryEdit (α κ : Type) where
  | append (item : α)
  | remove (k : κ)

namespace HistoryEdit

variable {edits : List (HistoryEdit α κ)}
variable {edits' : List (HistoryEdit α κ)}

def item? : HistoryEdit α κ → Option α
  | .append item => some item
  | .remove _ => none

def removed? : HistoryEdit α κ → Option κ
  | .append _ => none
  | .remove k => some k

def items (edits : List (HistoryEdit α κ)) : List α := edits.filterMap item?

def removals (edits : List (HistoryEdit α κ)) : List κ := edits.filterMap removed?

omit [LinearOrder κ] in
theorem items_perm (h : edits.Perm edits') :
    (items edits).Perm (items edits') :=
  h.filterMap item?

omit [LinearOrder κ] in
theorem removals_perm (h : edits.Perm edits') :
    (removals edits).Perm (removals edits') :=
  h.filterMap removed?

omit [LinearOrder κ] in
theorem mem_removals_remove {removed k : κ} :
    k ∈ removals (.remove removed :: edits) ↔ k = removed ∨ k ∈ removals edits :=
  List.mem_cons

def itemsOf (key : α → κ) (edits : List (HistoryEdit α κ)) (k : κ) : List α :=
  (items edits).filter fun item => key item = k

theorem itemsOf_perm (h : edits.Perm edits') (k : κ) :
    (itemsOf key edits k).Perm (itemsOf key edits' k) :=
  (items_perm h).filter _

end HistoryEdit

namespace Histories

open HistoryEdit

def empty : Histories key := ⟨∅, by simp, by simp⟩

/-- The history under a key, empty where there is none. -/
def under (histories : Histories key) (k : κ) : List α := histories.entries[k]?.getD []

variable {k : κ}

theorem key_of_mem_under (histories : Histories key) {item : α} (h : item ∈ histories.under k) :
    key item = k := by
  unfold under at h
  cases hentry : histories.entries[k]? with
  | none => simp [hentry] at h
  | some history => exact histories.keyed k history hentry item (by simpa [hentry] using h)

def append (histories : Histories key) (item : α) : Histories key where
  entries := histories.entries.insert (key item) (histories.under (key item) ++ [item])
  nonempty k history h := by
    rw [OrderedMap.lookup_insert] at h
    split_ifs at h
    · cases h
      simp
    · exact histories.nonempty k history h
  keyed k history h other hother := by
    rw [OrderedMap.lookup_insert] at h
    split_ifs at h with hkey
    · cases h
      rcases List.mem_append.mp hother with hother | hother
      · rw [← hkey]
        exact histories.key_of_mem_under hother
      · rw [List.mem_singleton.mp hother, hkey]
    · exact histories.keyed k history h other hother

def remove (histories : Histories key) (k : κ) : Histories key where
  entries := histories.entries.erase k
  nonempty other history h := by
    rw [OrderedMap.lookup_erase] at h
    split_ifs at h
    exact histories.nonempty other history h
  keyed other history h := by
    rw [OrderedMap.lookup_erase] at h
    split_ifs at h
    exact histories.keyed other history h

def edit (histories : Histories key) : HistoryEdit α κ → Histories key
  | .append item => histories.append item
  | .remove k => histories.remove k

theorem lookup_append (histories : Histories key) (item : α) (k : κ) :
    (histories.append item).entries[k]? =
      if key item = k then some (histories.under k ++ [item]) else histories.entries[k]? := by
  rw [append, OrderedMap.lookup_insert]
  split_ifs with hkey
  · rw [hkey]
  · rfl

theorem under_append (histories : Histories key) (item : α) (k : κ) :
    (histories.append item).under k =
      if key item = k then histories.under k ++ [item] else histories.under k := by
  unfold under
  rw [lookup_append]
  split_ifs <;> rfl

/-- A key no edit removes keeps its history and gets the items appended to it. -/
theorem lookup_foldl_edit_of_kept (edits : List (HistoryEdit α κ)) (histories : Histories key)
    (hkept : k ∉ removals edits) :
    (edits.foldl edit histories).entries[k]? =
      if itemsOf key edits k = [] then histories.entries[k]?
      else some (histories.under k ++ itemsOf key edits k) := by
  induction edits generalizing histories with
  | nil => simp [itemsOf, items]
  | cons next edits ih =>
    rw [List.foldl_cons]
    cases next with
    | remove removed =>
      have hne : removed ≠ k ∧ k ∉ removals edits := by
        rw [mem_removals_remove] at hkept
        push Not at hkept
        exact ⟨hkept.1.symm, hkept.2⟩
      have hsame : (histories.remove removed).entries[k]? = histories.entries[k]? := by
        rw [remove, OrderedMap.lookup_erase, if_neg hne.1]
      have hitems : itemsOf key (.remove removed :: edits) k = itemsOf key edits k := rfl
      rw [edit, ih _ hne.2, hitems, under, under, hsame]
    | append item =>
      have hrest : k ∉ removals edits := hkept
      rw [edit, ih _ hrest]
      by_cases hkey : key item = k
      · have hitems : itemsOf key (.append item :: edits) k = item :: itemsOf key edits k := by
          simp [itemsOf, items, item?, hkey]
        rw [hitems, under_append, lookup_append, if_pos hkey, if_pos hkey,
          if_neg (List.cons_ne_nil _ _)]
        by_cases hnone : itemsOf key edits k = []
        · rw [if_pos hnone, hnone]
        · rw [if_neg hnone, List.append_assoc, List.singleton_append]
      · have hitems : itemsOf key (.append item :: edits) k = itemsOf key edits k := by
          simp [itemsOf, items, item?, hkey]
        rw [hitems, under_append, lookup_append, if_neg hkey, if_neg hkey]

/-- A key that is removed and not appended to has no history left. -/
theorem lookup_foldl_edit_of_removed (edits : List (HistoryEdit α κ)) (histories : Histories key)
    (hremoved : k ∈ removals edits) (hnone : itemsOf key edits k = []) :
    (edits.foldl edit histories).entries[k]? = none := by
  induction edits generalizing histories with
  | nil => simp [removals] at hremoved
  | cons next edits ih =>
    rw [List.foldl_cons]
    have hrest : itemsOf key edits k = [] := by
      cases next with
      | remove => exact hnone
      | append item =>
        by_cases hkey : key item = k
        · simp [itemsOf, items, item?, hkey] at hnone
        · simpa [itemsOf, items, item?, hkey] using hnone
    by_cases hlater : k ∈ removals edits
    · exact ih _ hlater hrest
    · -- the first edit is the one that removes the key
      cases next with
      | append => exact absurd hremoved hlater
      | remove removed =>
        have hsame : removed = k := by
          rw [mem_removals_remove] at hremoved
          exact (hremoved.resolve_right hlater).symm
        rw [lookup_foldl_edit_of_kept _ _ hlater, if_pos hrest, edit, remove,
          OrderedMap.lookup_erase, if_pos hsame]

/-- No key is both appended to and removed. -/
def Separate (key : α → κ) (edits : List (HistoryEdit α κ)) : Prop :=
  ∀ item ∈ items edits, key item ∉ removals edits

/-- Separate edits in another order leave the same histories up to their order. -/
theorem lookup_foldl_edit_perm {edits edits' : List (HistoryEdit α κ)} (h : Separate key edits)
    (hperm : edits.Perm edits') (histories : Histories key) {history : List α}
    (hfound : (edits.foldl edit histories).entries[k]? = some history) :
    ∃ history', (edits'.foldl edit histories).entries[k]? = some history' ∧
      history.Perm history' := by
  have hitems : (itemsOf key edits k).Perm (itemsOf key edits' k) := itemsOf_perm hperm k
  by_cases hremoved : k ∈ removals edits
  · have hnone : itemsOf key edits k = [] := by
      refine List.filter_eq_nil_iff.mpr fun item hitem hkey => ?_
      have hkey : key item = k := by simpa using hkey
      exact h item hitem (hkey ▸ hremoved)
    rw [lookup_foldl_edit_of_removed _ _ hremoved hnone] at hfound
    cases hfound
  · have hremoved' : k ∉ removals edits' := fun hmem =>
      hremoved ((removals_perm hperm).mem_iff.mpr hmem)
    rw [lookup_foldl_edit_of_kept _ _ hremoved] at hfound
    rw [lookup_foldl_edit_of_kept _ _ hremoved']
    by_cases hnone : itemsOf key edits k = []
    · have hnone' : itemsOf key edits' k = [] := by
        rw [hnone] at hitems
        exact hitems.symm.eq_nil
      rw [if_pos hnone] at hfound
      rw [if_pos hnone']
      exact ⟨history, hfound, .refl history⟩
    · have hsome : itemsOf key edits' k ≠ [] := by
        intro hnone'
        rw [hnone'] at hitems
        exact hnone hitems.eq_nil
      rw [if_neg hnone] at hfound
      rw [if_neg hsome]
      cases hfound
      exact ⟨_, rfl, hitems.append_left _⟩

/-- The items themselves, grouped by their key. -/
def ofList (key : α → κ) (xs : List α) : Histories key :=
  xs.foldl append empty

theorem lookup_ofList (xs : List α) (k : κ) :
    (ofList key xs).entries[k]? =
      if xs.filter (fun item => key item = k) = [] then none
      else some (xs.filter fun item => key item = k) := by
  have hfold : ∀ start : Histories key,
      xs.foldl append start = (xs.map HistoryEdit.append).foldl edit start := by
    intro start
    rw [List.foldl_map]
    rfl
  have hremovals : removals (xs.map (HistoryEdit.append (κ := κ))) = [] := by
    simp [removals, List.filterMap_map, removed?, Function.comp_def]
  have hitems : items (xs.map (HistoryEdit.append (κ := κ))) = xs := by
    simp [items, List.filterMap_map, item?, Function.comp_def]
  rw [ofList, hfold, lookup_foldl_edit_of_kept _ _ (by simp [hremovals]), itemsOf, hitems]
  simp [empty, under]

end Histories

/-- Some pair of elements, the first before the second, satisfies `p`. -/
def anyPair (p : α → α → Bool) : List α → Bool
  | [] => false
  | x :: xs => xs.any (p x) || anyPair p xs

variable {p : α → α → Bool}

omit [LinearOrder κ] in
theorem anyPair_eq_false_iff {xs : List α} :
    anyPair p xs = false ↔ xs.Pairwise fun a b => p a b = false := by
  induction xs with
  | nil => simp [anyPair]
  | cons x xs ih =>
    rw [anyPair, Bool.or_eq_false_iff, ih, List.pairwise_cons, List.any_eq_false]
    simp

theorem anyPair_perm (hsymm : ∀ a b, p a b = p b a) {xs ys : List α} (h : xs.Perm ys) :
    anyPair p xs = anyPair p ys := by
  rw [Bool.eq_iff_iff, ← not_iff_not, Bool.not_eq_true, Bool.not_eq_true, anyPair_eq_false_iff,
    anyPair_eq_false_iff]
  exact h.pairwise_iff fun {a b} hab => by rw [hsymm]; exact hab

end DtgProxy.Lib

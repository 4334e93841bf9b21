import Mathlib

/-! # Selecting and sorting by a rank with ties

A loop that keeps its candidate unless a later element has a strictly greater
rank returns, of the elements of greatest rank, the first one.  Which one that
is depends on the order in which the list is visited: on a list that ascends in
a second key, it is the one with the least second key.  A stable sort behaves in
the same way.
-/
namespace DtgProxy.Lib.Newest

variable {α β κ τ : Type*} [LinearOrder κ] [LinearOrder τ]
variable {xs : List α}

/-- The candidate after one more element. -/
def keep (rank : β → κ) (candidate : Option β) (event : β) : Option β :=
  match candidate with
  | none => some event
  | some current => if rank current < rank event then some event else some current

/-- The first element of greatest rank. -/
def newest (rank : β → κ) (events : List β) : Option β := events.foldl (keep rank) none

variable {rank : β → κ}

theorem newest_concat (events : List β) (event : β) :
    newest rank (events ++ [event]) = keep rank (newest rank events) event := by
  simp [newest]

variable {events : List β}

theorem newest_eq_none_iff : newest rank events = none ↔ events = [] := by
  induction events using List.reverseRecOn with
  | nil => exact ⟨fun _ => rfl, fun _ => rfl⟩
  | append_singleton events =>
    rw [newest_concat]
    cases newest rank events with
    | none => simp [keep]
    | some =>
      simp only [keep]
      split_ifs <;> simp

theorem mem_of_newest {event : β} (h : newest rank events = some event) :
    event ∈ events := by
  induction events using List.reverseRecOn with
  | nil => cases h
  | append_singleton events last ih =>
    rw [newest_concat] at h
    cases hbefore : newest rank events with
    | none =>
      rw [hbefore] at h
      cases h
      simp
    | some =>
      rw [hbefore, keep] at h
      split_ifs at h
      · cases h
        simp
      · cases h
        exact List.mem_append_left _ (ih hbefore)

theorem rank_le_newest {event : β} (h : newest rank events = some event) :
    ∀ other ∈ events, rank other ≤ rank event := by
  induction events using List.reverseRecOn generalizing event with
  | nil => cases h
  | append_singleton events last ih =>
    rw [newest_concat] at h
    rw [List.forall_mem_append, List.forall_mem_singleton]
    cases hbefore : newest rank events with
    | none =>
      rw [hbefore] at h
      cases h
      rw [newest_eq_none_iff.mp hbefore]
      exact ⟨fun _ hmem => absurd hmem List.not_mem_nil, le_rfl⟩
    | some =>
      rw [hbefore, keep] at h
      split_ifs at h with hlt
      · cases h
        exact ⟨fun other hother => (ih hbefore other hother).trans hlt.le, le_rfl⟩
      · cases h
        exact ⟨ih hbefore, not_lt.mp hlt⟩

/-- Dropping what is not above a bound drops the newest element or changes nothing. -/
theorem newest_filter_lt (events : List β) (bound : κ) :
    newest rank (events.filter fun event => decide (bound < rank event)) =
      (newest rank events).filter fun event => decide (bound < rank event) := by
  induction events using List.reverseRecOn with
  | nil => rfl
  | append_singleton events event ih =>
    rw [List.filter_append, newest_concat]
    by_cases hevent : bound < rank event
    · rw [List.filter_cons_of_pos (by simpa using hevent), List.filter_nil, newest_concat, ih]
      cases newest rank events with
      | none => simp [keep, Option.filter, hevent]
      | some current =>
        by_cases hcurrent : bound < rank current
        · by_cases hlt : rank current < rank event
          · simp [keep, Option.filter, hcurrent, hlt, hevent]
          · simp [keep, Option.filter, hcurrent, hlt]
        · have hlt : rank current < rank event := lt_of_le_of_lt (not_lt.mp hcurrent) hevent
          simp [keep, Option.filter, hcurrent, hlt, hevent]
    · rw [List.filter_cons_of_neg (by simpa using hevent), List.filter_nil, List.append_nil, ih]
      cases newest rank events with
      | none => simp [keep, Option.filter, hevent]
      | some current =>
        by_cases hlt : rank current < rank event
        · have hcurrent : ¬ bound < rank current := fun h => hevent (h.trans hlt)
          simp [keep, Option.filter, hlt, hcurrent, hevent]
        · simp [keep, hlt]

/-- One more element, when the newest one is dropped unless its rank is high enough. -/
theorem filter_newest_concat {p : κ → Prop} [DecidablePred p]
    (hp : ∀ {a b}, p a → a ≤ b → p b) (events : List β) (event : β) :
    (newest rank (events ++ [event])).filter (fun e => decide (p (rank e))) =
      ((newest rank events).filter fun e => decide (p (rank e))).elim
        (if p (rank event) then some event else none) fun top => keep rank (some top) event := by
  rw [newest_concat]
  cases newest rank events with
  | none => simp [keep, Option.filter]
  | some top =>
    by_cases htop : p (rank top)
    · by_cases hlt : rank top < rank event
      · simp [keep, Option.filter, htop, hlt, hp htop hlt.le]
      · simp [keep, Option.filter, htop, hlt]
    · by_cases hlt : rank top < rank event
      · simp [keep, Option.filter, htop, hlt]
      · have hevent : ¬ p (rank event) := fun h => htop (hp h (not_lt.mp hlt))
        simp [keep, Option.filter, htop, hlt, hevent]

/-- Along a list that ascends in `place`, the candidate is the event of greatest
rank with the least place. -/
theorem newest_filterMap {place : α → τ} {event : α → Option β}
    (hordered : xs.Pairwise (fun a b => place a < place b)) {e : β}
    (h : newest rank (xs.filterMap event) = some e) :
    ∃ x ∈ xs, event x = some e ∧ ∀ y ∈ xs, ∀ f, event y = some f →
      rank f < rank e ∨ (rank f = rank e ∧ place x ≤ place y) := by
  induction xs using List.reverseRecOn generalizing e with
  | nil => cases h
  | append_singleton xs x ih =>
    obtain ⟨hxs, -, hlast⟩ := List.pairwise_append.mp hordered
    rw [List.filterMap_append] at h
    simp only [List.forall_mem_append, List.forall_mem_singleton]
    cases hx : event x with
    | none =>
      rw [List.filterMap_cons_none hx, List.filterMap_nil, List.append_nil] at h
      obtain ⟨z, hz, hze, hmax⟩ := ih hxs h
      exact ⟨z, List.mem_append_left _ hz, hze, hmax, by simp⟩
    | some =>
      rw [List.filterMap_cons_some hx, List.filterMap_nil, newest_concat] at h
      cases hold : newest rank (xs.filterMap event) with
      | none =>
        -- Nothing matched before: the last element is the only event.
        rw [hold] at h
        cases h
        rw [newest_eq_none_iff, List.filterMap_eq_nil_iff] at hold
        refine ⟨x, List.mem_append_right _ List.mem_cons_self, hx, fun y hy f hf => ?_, by simp⟩
        cases (hold y hy).symm.trans hf
      | some =>
        rw [hold] at h
        obtain ⟨z, hz, hze, hmax⟩ := ih hxs hold
        simp only [keep] at h
        split_ifs at h with hlt
        · cases h
          refine ⟨x, List.mem_append_right _ List.mem_cons_self, hx, fun y hy f hf => .inl ?_,
            by simp⟩
          rcases hmax y hy f hf with hrank | ⟨hrank, -⟩
          · exact lt_trans hrank hlt
          · exact hrank ▸ hlt
        · cases h
          refine ⟨z, List.mem_append_left _ hz, hze, hmax, fun f hf => ?_⟩
          cases hf
          rcases lt_or_eq_of_le (not_lt.mp hlt) with hrank | hrank
          · exact Or.inl hrank
          · exact Or.inr ⟨hrank, (hlast z hz x List.mem_cons_self).le⟩

/-! ## Stable sorting -/

/-- The stable sort by a key. -/
def sortBy (key : α → κ) (xs : List α) : List α :=
  xs.insertionSort (fun a b => key a ≤ key b)

variable {key : α → κ} {place : α → τ}

theorem sortBy_perm (xs : List α) : (sortBy key xs).Perm xs := List.perm_insertionSort _ xs

theorem sortBy_eq_self (h : xs.Pairwise (fun a b => key a ≤ key b)) :
    sortBy key xs = xs :=
  List.Pairwise.insertionSort_eq h

theorem map_sortBy (f : α → β) (rank : β → κ) (xs : List α) :
    (sortBy (fun a => rank (f a)) xs).map f = sortBy rank (xs.map f) :=
  List.map_insertionSort _ _ f xs fun _ _ _ _ => Iff.rfl

private theorem orderedInsert_lex {x : α}
    (hsorted : xs.Pairwise (fun a b => toLex (key a, place a) < toLex (key b, place b)))
    (hfirst : ∀ y ∈ xs, place x < place y) :
    (xs.orderedInsert (fun a b => key a ≤ key b) x).Pairwise
      (fun a b => toLex (key a, place a) < toLex (key b, place b)) := by
  induction xs with
  | nil => simp
  | cons y ys ih =>
    rw [List.pairwise_cons] at hsorted
    have hxy := hfirst y List.mem_cons_self
    rw [List.orderedInsert_cons]
    split_ifs with hle
    · have hlt : toLex (key x, place x) < toLex (key y, place y) := by
        rw [Prod.Lex.toLex_lt_toLex]
        exact (lt_or_eq_of_le hle).imp id fun h => ⟨h, hxy⟩
      rw [List.pairwise_cons, List.pairwise_cons]
      exact ⟨List.forall_mem_cons.mpr ⟨hlt, fun z hz => lt_trans hlt (hsorted.1 z hz)⟩, hsorted⟩
    · rw [List.pairwise_cons]
      refine ⟨fun z hz => ?_, ih hsorted.2 fun z hz => hfirst z (List.mem_cons_of_mem _ hz)⟩
      rcases (List.mem_orderedInsert _).mp hz with rfl | hz
      · rw [Prod.Lex.toLex_lt_toLex]
        exact Or.inl (not_le.mp hle)
      · exact hsorted.1 z hz

/-- A stable sort of a list that ascends in `place` breaks ties by `place`. -/
theorem sortBy_lex (hordered : xs.Pairwise (fun a b => place a < place b)) :
    (sortBy key xs).Pairwise
      (fun a b => toLex (key a, place a) < toLex (key b, place b)) := by
  induction xs with
  | nil => exact List.Pairwise.nil
  | cons x xs ih =>
    rw [List.pairwise_cons] at hordered
    refine orderedInsert_lex (ih hordered.2) fun y hy => hordered.1 y ?_
    exact (sortBy_perm xs).mem_iff.mp hy

/-- The sorted list is the only ordering by key and place. -/
theorem sortBy_eq_of_perm {ys : List α} (hordered : xs.Pairwise (fun a b => place a < place b))
    (hperm : ys.Perm xs)
    (hys : ys.Pairwise (fun a b => toLex (key a, place a) < toLex (key b, place b))) :
    sortBy key xs = ys := by
  refine ((sortBy_perm xs).trans hperm.symm).eq_of_pairwise ?_ (sortBy_lex hordered) hys
  intro a b _ _ hab hba
  exact absurd hba (lt_asymm hab)

end DtgProxy.Lib.Newest

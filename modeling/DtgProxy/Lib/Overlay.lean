import DtgProxy.Lib.Newest

/-! # Puts and tombstones behind a base

A row is put and removed by marks that carry a rank.  The rule shows the first put of
greatest rank, unless a tombstone is strictly newer.  An overlay follows the marks that
come after a base row one at a time, and remembers one put and one tombstone only.  What
it has at the end is stated here in terms of all the marks.
-/
namespace DtgProxy.Lib.Overlay

open Newest

inductive Mark (ρ κ : Type*) where
  | put (row : ρ)
  | tombstone (rank : κ)

variable {ρ κ : Type*}

def Mark.row? : Mark ρ κ → Option ρ
  | .put row => some row
  | .tombstone _ => none

def Mark.removal? : Mark ρ κ → Option κ
  | .put _ => none
  | .tombstone t => some t

def puts (marks : List (Mark ρ κ)) : List ρ := marks.filterMap Mark.row?

def tombstones (marks : List (Mark ρ κ)) : List κ := marks.filterMap Mark.removal?

variable (marks : List (Mark ρ κ))

@[simp] theorem puts_append (more : List (Mark ρ κ)) :
    puts (marks ++ more) = puts marks ++ puts more :=
  List.filterMap_append

@[simp] theorem tombstones_append (more : List (Mark ρ κ)) :
    tombstones (marks ++ more) = tombstones marks ++ tombstones more :=
  List.filterMap_append

variable (row : ρ)

@[simp] theorem puts_put : puts [(.put row : Mark ρ κ)] = [row] := rfl
@[simp] theorem puts_tombstone (t : κ) : puts [(.tombstone t : Mark ρ κ)] = [] := rfl
@[simp] theorem tombstones_put : tombstones [(.put row : Mark ρ κ)] = [] := rfl
@[simp] theorem tombstones_tombstone (t : κ) : tombstones [(.tombstone t : Mark ρ κ)] = [t] := rfl

variable [LinearOrder κ] (rank : ρ → κ)

/-- The row the rule shows. -/
def shown (marks : List (Mark ρ κ)) : Option ρ :=
  (newest rank (puts marks)).filter fun row => decide (∀ t ∈ tombstones marks, t ≤ rank row)

/-! ## The overlay -/

/-- The put and the tombstone that an overlay remembers. -/
@[ext] structure State (ρ κ : Type*) where
  added : Option ρ
  removed : Option κ

/-- One mark.  A tombstone is remembered only against the base, and only until a newer
put arrives. -/
def State.apply (base : Option ρ) (s : State ρ κ) : Mark ρ κ → State ρ κ
  | .put row =>
    if s.removed.any fun t => decide (rank row ≤ t) then s
    else if (s.added.any fun e => decide (rank row ≤ rank e)) ||
        base.any fun e => decide (rank row ≤ rank e) then ⟨s.added, none⟩
    else ⟨some row, none⟩
  | .tombstone t =>
    ⟨s.added.filter fun e => !decide (rank e ≤ t),
      if base.any fun e => decide (rank e ≤ t) then
        if s.removed.all fun r => decide (r ≤ t) then some t else s.removed
      else s.removed⟩

/-- The row under the overlay. -/
def State.result (base : Option ρ) (s : State ρ κ) : Option ρ :=
  s.added.or (base.filter fun e => !s.removed.any fun t => decide (rank e ≤ t))

def State.run (base : Option ρ) (marks : List (Mark ρ κ)) : State ρ κ :=
  marks.foldl (State.apply rank base) ⟨none, none⟩

/-- The puts that no later tombstone reaches. -/
def survivors : List (Mark ρ κ) → List ρ
  | [] => []
  | .tombstone _ :: marks => survivors marks
  | .put row :: marks =>
    if ∀ t ∈ tombstones marks, t < rank row then row :: survivors marks else survivors marks

/-- What an overlay keeps.  Against a base row, it is the newest put that every tombstone
is older than; without one, tombstones reach only the puts before them. -/
def kept (base : Option ρ) (marks : List (Mark ρ κ)) : Option ρ :=
  match base with
  | none => newest rank (survivors rank marks)
  | some b =>
    (newest rank (b :: puts marks)).filter fun row => decide (∀ t ∈ tombstones marks, t < rank row)

/-- The newest tombstone has the rank of the row. -/
def Tied (marks : List (Mark ρ κ)) (row : ρ) : Prop :=
  rank row ∈ tombstones marks ∧ ∀ t ∈ tombstones marks, t ≤ rank row

/-- When an overlay ends with the row that the rule shows of all the marks.  Over a base row,
no tombstone ties with the newest put.  Otherwise the row is the newest put that no later
tombstone reaches, and if the rule shows no row every put is reached. -/
def Keeps (before marks : List (Mark ρ κ)) : Prop :=
  match shown rank before with
  | none => newest rank (survivors rank marks) = shown rank (before ++ marks)
  | some b => ∀ top, newest rank (b :: puts marks) = some top → ¬ Tied rank marks top

/-- What the next mark must meet for the overlay to keep up with the rule.  A tombstone
does not tie with the row that is shown.  A put that arrives when nothing is shown is, over
a base row, not tied with the newest tombstone, and otherwise no older than any tombstone. -/
def Admits (before marks : List (Mark ρ κ)) : Mark ρ κ → Prop
  | .put row =>
    shown rank (before ++ marks) = none →
      match shown rank before with
      | none => ∀ t ∈ tombstones (before ++ marks), t ≤ rank row
      | some _ => ¬ Tied rank marks row
  | .tombstone t => ∀ row, shown rank (before ++ marks) = some row → rank row ≠ t

/-- The states of an overlay on the base row `b` when `top` is the newest of its puts. -/
inductive Follows (b : ρ) (marks : List (Mark ρ κ)) (top : ρ) : State ρ κ → Prop
  | untouched (hequal : top = b) (hbelow : ∀ t ∈ tombstones marks, t < rank b) :
      Follows b marks top ⟨none, none⟩
  | added {removed : Option κ} (habove : rank b < rank top)
      (hbelow : ∀ t ∈ tombstones marks, t < rank top) (hremoved : ∀ t ∈ removed, t < rank top) :
      Follows b marks top ⟨some top, removed⟩
  | removed {t : κ} (hmem : t ∈ tombstones marks) (hmax : ∀ s ∈ tombstones marks, s ≤ t)
      (hreach : rank top ≤ t) : Follows b marks top ⟨none, some t⟩

variable {rank}

theorem run_concat (base : Option ρ) (marks : List (Mark ρ κ)) (mark : Mark ρ κ) :
    State.run rank base (marks ++ [mark]) = (State.run rank base marks).apply rank base mark := by
  simp [State.run]

theorem survivors_put :
    survivors rank (marks ++ [.put row]) = survivors rank marks ++ [row] := by
  induction marks with
  | nil => simp [survivors, tombstones]
  | cons mark marks ih =>
    cases mark with
    | tombstone => exact ih
    | put =>
      simp only [List.cons_append, survivors, tombstones_append, tombstones_put, List.append_nil, ih]
      split_ifs <;> rfl

theorem survivors_tombstone (t : κ) :
    survivors rank (marks ++ [.tombstone t]) =
      (survivors rank marks).filter fun row => decide (t < rank row) := by
  induction marks with
  | nil => rfl
  | cons mark marks ih =>
    cases mark with
    | tombstone => exact ih
    | put first =>
      simp only [List.cons_append, survivors, tombstones_append, tombstones_tombstone, ih,
        List.forall_mem_append, List.forall_mem_singleton]
      by_cases hmarks : ∀ s ∈ tombstones marks, s < rank first
      · by_cases ht : t < rank first
        · rw [if_pos ⟨hmarks, ht⟩, if_pos hmarks, List.filter_cons_of_pos (by simpa using ht)]
        · rw [if_neg fun h => ht h.2, if_pos hmarks, List.filter_cons_of_neg (by simpa using ht)]
      · rw [if_neg fun h => hmarks h.1, if_neg hmarks]

/-- The overlay has the newest surviving put, and no tombstone. -/
theorem run_none :
    State.run rank none marks = ⟨newest rank (survivors rank marks), none⟩ := by
  induction marks using List.reverseRecOn with
  | nil => rfl
  | append_singleton marks mark ih =>
    rw [run_concat, ih]
    cases mark with
    | put row =>
      rw [survivors_put, newest_concat]
      cases newest rank (survivors rank marks) with
      | none => simp [State.apply, keep]
      | some current =>
        by_cases hle : rank row ≤ rank current
        · simp [State.apply, keep, hle, not_lt.mpr hle]
        · simp [State.apply, keep, hle, not_le.mp hle]
    | tombstone =>
      rw [survivors_tombstone, newest_filter_lt]
      simp [State.apply, ← decide_not]

/-! ## Against a base row -/

variable {marks : List (Mark ρ κ)} {s : State ρ κ}

theorem Follows.put {b top : ρ} (h : Follows rank b marks top s) (hbase : rank b ≤ rank top)
    (row : ρ) :
    Follows rank b (marks ++ [.put row]) (if rank top < rank row then row else top)
      (s.apply rank (some b) (.put row)) := by
  have hmarks {P : κ → Prop} (hold : ∀ t ∈ tombstones marks, P t) :
      ∀ t ∈ tombstones (marks ++ [.put row]), P t := by simpa using hold
  cases h with
  | untouched hequal hbelow =>
    subst hequal
    by_cases hlt : rank top < rank row
    · have hstate : State.apply rank (some top) ⟨none, none⟩ (.put row) = ⟨some row, none⟩ := by
        simp [State.apply, hlt]
      rw [if_pos hlt, hstate]
      exact .added hlt (hmarks fun t ht => (hbelow t ht).trans hlt) (by simp)
    · have hstate : State.apply rank (some top) ⟨none, none⟩ (.put row) = ⟨none, none⟩ := by
        simp [State.apply, not_lt.mp hlt]
      rw [if_neg hlt, hstate]
      exact .untouched rfl (hmarks hbelow)
  | @added removed habove hbelow hremoved =>
    by_cases hlt : rank top < rank row
    · have hstate : State.apply rank (some b) ⟨some top, removed⟩ (.put row) = ⟨some row, none⟩ := by
        have hremoved : removed.any (fun t => decide (rank row ≤ t)) = false := by
          cases removed with
          | none => rfl
          | some t => simpa using (hremoved t rfl).trans hlt
        simp [State.apply, hremoved, hlt, habove.trans hlt]
      rw [if_pos hlt, hstate]
      exact .added (habove.trans hlt) (hmarks fun t ht => (hbelow t ht).trans hlt) (by simp)
    · -- The put is no newer than the one there: at most the tombstone is forgotten.
      have hstate : ∃ removed', (∀ t ∈ removed', t < rank top) ∧
          State.apply rank (some b) ⟨some top, removed⟩ (.put row) = ⟨some top, removed'⟩ := by
        simp only [State.apply]
        split_ifs with hold hnew
        · exact ⟨removed, hremoved, rfl⟩
        · exact ⟨none, by simp, rfl⟩
        · rw [Bool.or_eq_true, not_or] at hnew
          exact absurd (by simpa using not_lt.mp hlt) hnew.1
      obtain ⟨removed', hremoved', hstate⟩ := hstate
      rw [if_neg hlt, hstate]
      exact .added habove (hmarks hbelow) hremoved'
  | @removed t hmem hmax hreach =>
    by_cases hle : rank row ≤ t
    · have hstate : State.apply rank (some b) ⟨none, some t⟩ (.put row) = ⟨none, some t⟩ := by
        simp [State.apply, hle]
      rw [hstate]
      refine .removed (by simpa using hmem) (hmarks hmax) ?_
      split_ifs
      · exact hle
      · exact hreach
    · have hlt : rank top < rank row := lt_of_le_of_lt hreach (not_le.mp hle)
      have hstate : State.apply rank (some b) ⟨none, some t⟩ (.put row) = ⟨some row, none⟩ := by
        simp [State.apply, hle, lt_of_le_of_lt hbase hlt]
      rw [if_pos hlt, hstate]
      exact .added (lt_of_le_of_lt hbase hlt)
        (hmarks fun s hs => lt_of_le_of_lt (hmax s hs) (not_le.mp hle)) (by simp)

theorem Follows.tombstone {b top : ρ} (h : Follows rank b marks top s) (hbase : rank b ≤ rank top)
    (t : κ) :
    Follows rank b (marks ++ [.tombstone t]) top (s.apply rank (some b) (.tombstone t)) := by
  have hmarks {P : κ → Prop} (hold : ∀ s ∈ tombstones marks, P s) (hnew : P t) :
      ∀ s ∈ tombstones (marks ++ [.tombstone t]), P s := by
    rw [tombstones_append]
    exact List.forall_mem_append.mpr ⟨hold, List.forall_mem_singleton.mpr hnew⟩
  -- A tombstone that reaches the newest put is the newest tombstone and is remembered.
  have hreached : ∀ {removed : Option κ} {bound : κ}, rank top ≤ t → (∀ r ∈ removed, r ≤ t) →
      (∀ s ∈ tombstones marks, s < bound) → bound ≤ t →
      Follows rank b (marks ++ [.tombstone t]) top
        ⟨none, if removed.all fun r => decide (r ≤ t) then some t else removed⟩ := by
    intro removed bound hreach hremoved hbelow hbound
    have hall : removed.all (fun r => decide (r ≤ t)) = true := by
      cases removed with
      | none => rfl
      | some r => simpa using hremoved r rfl
    rw [if_pos hall]
    exact .removed (by simp) (hmarks (fun s hs => (hbelow s hs).le.trans hbound) le_rfl) hreach
  cases h with
  | untouched hequal hbelow =>
    subst hequal
    by_cases hle : rank top ≤ t
    · simp only [State.apply, Option.any_some, decide_eq_true hle, if_true]
      exact hreached hle (by simp) hbelow hle
    · simp only [State.apply, Option.any_some, decide_eq_false hle]
      exact .untouched rfl (hmarks hbelow (not_le.mp hle))
  | @added removed habove hbelow hremoved =>
    by_cases hle : rank top ≤ t
    · simp only [State.apply, Option.any_some, decide_eq_true hle,
        decide_eq_true (habove.le.trans hle), if_true, Option.filter, Bool.not_true]
      exact hreached hle (fun r hr => (hremoved r hr).le.trans hle) hbelow hle
    · have hlt := not_le.mp hle
      simp only [State.apply, Option.filter, decide_eq_false hle, Bool.not_false, if_true]
      refine .added habove (hmarks hbelow hlt) ?_
      split_ifs
      · simpa using hlt
      · exact hremoved
      · exact hremoved
  | @removed s hmem hmax hreach =>
    by_cases hle : s ≤ t
    · have hbase' : rank b ≤ t := (hbase.trans hreach).trans hle
      simp only [State.apply, Option.any_some, Option.all_some, decide_eq_true hbase',
        decide_eq_true hle, if_true]
      exact .removed (by simp) (hmarks (fun r hr => (hmax r hr).trans hle) le_rfl) (hreach.trans hle)
    · have hstate : State.apply rank (some b) ⟨none, some s⟩ (.tombstone t) = ⟨none, some s⟩ := by
        simp [State.apply, hle]
      rw [hstate]
      exact .removed (by simp [hmem]) (hmarks hmax (not_le.mp hle).le) hreach

theorem newest_base_concat {b top row : ρ} {rows : List ρ}
    (h : newest rank (b :: rows) = some top) :
    newest rank (b :: (rows ++ [row])) = some (if rank top < rank row then row else top) := by
  rw [← List.cons_append, newest_concat, h, keep, apply_ite some]

theorem follows_run (b : ρ) (marks : List (Mark ρ κ)) :
    ∃ top, newest rank (b :: puts marks) = some top ∧
      Follows rank b marks top (State.run rank (some b) marks) := by
  induction marks using List.reverseRecOn with
  | nil => exact ⟨b, rfl, .untouched rfl (by simp [tombstones])⟩
  | append_singleton marks mark ih =>
    obtain ⟨top, htop, hfollows⟩ := ih
    have hbase : rank b ≤ rank top := rank_le_newest htop b List.mem_cons_self
    rw [run_concat]
    cases mark with
    | put row =>
      refine ⟨_, ?_, hfollows.put hbase row⟩
      rw [puts_append, puts_put]
      exact newest_base_concat htop
    | tombstone t =>
      refine ⟨top, ?_, hfollows.tombstone hbase t⟩
      rw [puts_append, puts_tombstone, List.append_nil]
      exact htop

/-- What an overlay returns after any marks. -/
theorem result_run (base : Option ρ) (marks : List (Mark ρ κ)) :
    (State.run rank base marks).result rank base = kept rank base marks := by
  cases base with
  | none =>
    rw [run_none]
    simp [State.result, kept]
  | some b =>
    obtain ⟨top, htop, hfollows⟩ := follows_run b marks
    have hbase : rank b ≤ rank top := rank_le_newest htop b List.mem_cons_self
    rw [kept, htop]
    generalize State.run rank (some b) marks = s at hfollows
    cases hfollows with
    | untouched hequal hbelow =>
      subst hequal
      simpa [State.result, Option.filter] using hbelow
    | added habove hbelow => simpa [State.result, Option.filter] using hbelow
    | @removed t hmem hmax hreach =>
      have hnot : ¬ ∀ s ∈ tombstones marks, s < rank top :=
        fun h => absurd (h t hmem) (not_lt.mpr hreach)
      simp [State.result, Option.filter, hnot, hbase.trans hreach]

/-! ## Keeping up with the rule -/

theorem shown_eq_some_iff {row : ρ} :
    shown rank marks = some row ↔
      newest rank (puts marks) = some row ∧ ∀ t ∈ tombstones marks, t ≤ rank row := by
  rw [shown, Option.filter_eq_some_iff, decide_eq_true_iff]

theorem shown_eq_none_iff :
    shown rank marks = none ↔
      ∀ row, newest rank (puts marks) = some row → ∃ t ∈ tombstones marks, rank row < t := by
  simp [shown, Option.filter_eq_none_iff]

theorem shown_tombstone (t : κ) :
    shown rank (marks ++ [.tombstone t]) =
      (shown rank marks).filter fun row => decide (t ≤ rank row) := by
  simp [shown, Option.filter_filter, or_imp, forall_and, Bool.and_comm]

theorem kept_tombstone (base : Option ρ) (marks : List (Mark ρ κ)) (t : κ) :
    kept rank base (marks ++ [.tombstone t]) =
      (kept rank base marks).filter fun row => decide (t < rank row) := by
  cases base with
  | none => rw [kept, survivors_tombstone, newest_filter_lt, kept]
  | some => simp [kept, Option.filter_filter, or_imp, forall_and, Bool.and_comm]

theorem shown_put :
    shown rank (marks ++ [.put row]) = (shown rank marks).elim
      (if ∀ t ∈ tombstones marks, t ≤ rank row then some row else none)
      fun top => keep rank (some top) row := by
  rw [shown, puts_append, puts_put, tombstones_append, tombstones_put, List.append_nil]
  exact filter_newest_concat (p := fun k => ∀ t ∈ tombstones marks, t ≤ k)
    (fun hall hle t ht => (hall t ht).trans hle) _ row

theorem kept_put_some (b : ρ) (marks : List (Mark ρ κ)) (row : ρ) :
    kept rank (some b) (marks ++ [.put row]) = (kept rank (some b) marks).elim
      (if ∀ t ∈ tombstones marks, t < rank row then some row else none)
      fun top => keep rank (some top) row := by
  rw [kept, puts_append, puts_put, ← List.cons_append, tombstones_append, tombstones_put,
    List.append_nil]
  exact filter_newest_concat (p := fun k => ∀ t ∈ tombstones marks, t < k)
    (fun hall hle t ht => (hall t ht).trans_le hle) _ row

theorem kept_put_none :
    kept rank none (marks ++ [.put row]) = (kept rank none marks).elim (some row)
      fun top => keep rank (some top) row := by
  rw [kept, survivors_put, newest_concat, kept]
  cases newest rank (survivors rank marks) with
  | none => rfl
  | some => rfl

variable {before : List (Mark ρ κ)}

/-- The strict and the weak comparison part only at a tie. -/
theorem below_eq_iff :
    (if ∀ t ∈ tombstones marks, t < rank row then some row else none) =
        (if ∀ t ∈ tombstones marks, t ≤ rank row then some row else none) ↔
      ¬ Tied rank marks row := by
  rw [Tied]
  by_cases hall : ∀ t ∈ tombstones marks, t ≤ rank row
  · rw [if_pos hall, and_iff_left hall]
    constructor
    · intro hequal hmem
      split_ifs at hequal with hlt
      exact lt_irrefl _ (hlt _ hmem)
    · intro hfree
      rw [if_pos fun t ht => lt_of_le_of_ne (hall t ht) fun heq => hfree (heq ▸ ht)]
  · rw [if_neg hall, if_neg fun hlt => hall fun t ht => (hlt t ht).le]
    exact iff_of_true rfl fun htied => hall htied.2

/-- If a tombstone removes the base row, those before the base do not matter. -/
theorem tombstones_le_iff {b : ρ} (hbefore : shown rank before = some b)
    (h : kept rank (some b) marks = none) (row : ρ) :
    (∀ t ∈ tombstones (before ++ marks), t ≤ rank row) ↔ ∀ t ∈ tombstones marks, t ≤ rank row := by
  rw [tombstones_append, List.forall_mem_append]
  refine and_iff_right_of_imp fun hall t ht => ?_
  obtain ⟨top, htop, -⟩ := @follows_run _ _ _ rank b marks
  rw [kept, Option.filter_eq_none_iff] at h
  obtain ⟨s, hs, hreach⟩ : ∃ s ∈ tombstones marks, rank top ≤ s := by simpa using h top htop
  calc t ≤ rank b := (shown_eq_some_iff.mp hbefore).2 t ht
    _ ≤ rank top := rank_le_newest htop b List.mem_cons_self
    _ ≤ s := hreach
    _ ≤ rank row := hall s hs

/-- The condition is that the overlay has what the rule shows. -/
theorem keeps_iff :
    Keeps rank before marks ↔ kept rank (shown rank before) marks = shown rank (before ++ marks) := by
  rw [Keeps]
  cases hbefore : shown rank before with
  | none => rfl
  | some b =>
    obtain ⟨hnewest, hbelow⟩ := shown_eq_some_iff.mp hbefore
    obtain ⟨top, htop, -⟩ := @follows_run _ _ _ rank b marks
    have hputs : newest rank (puts (before ++ marks)) = some top := by
      rw [puts_append, newest, List.foldl_append, ← newest, hnewest]
      exact htop
    -- Tombstones from before the base are no newer than the base row.
    have htombstones : (∀ t ∈ tombstones (before ++ marks), t ≤ rank top) ↔
        ∀ t ∈ tombstones marks, t ≤ rank top := by
      rw [tombstones_append, List.forall_mem_append]
      exact and_iff_right fun t ht => (hbelow t ht).trans (rank_le_newest htop b List.mem_cons_self)
    simp only [kept, shown, htop, hputs, Option.filter_some, decide_eq_true_eq, htombstones,
      Option.some.injEq, forall_eq', below_eq_iff]

/-- One mark more: an overlay that has kept up keeps up exactly when the mark is admitted. -/
theorem keeps_concat_iff (h : Keeps rank before marks) (mark : Mark ρ κ) :
    Keeps rank before (marks ++ [mark]) ↔ Admits rank before marks mark := by
  rw [keeps_iff] at h
  rw [keeps_iff, ← List.append_assoc]
  cases mark with
  | tombstone t =>
    rw [kept_tombstone, shown_tombstone, h, Admits]
    cases shown rank (before ++ marks) with
    | none => simp
    | some top =>
      rcases lt_trichotomy t (rank top) with hlt | heq | hlt
      · simp [Option.filter, hlt, hlt.le, hlt.ne']
      · simp [Option.filter, heq]
      · simp [Option.filter, not_lt.mpr hlt.le, not_le.mpr hlt, hlt.ne]
  | put row =>
    rw [shown_put, Admits]
    cases hbefore : shown rank before with
    | none =>
      rw [hbefore] at h
      rw [kept_put_none, h]
      cases shown rank (before ++ marks) with
      | some => simp
      | none => simp
    | some =>
      rw [hbefore] at h
      rw [kept_put_some, h]
      cases hshown : shown rank (before ++ marks) with
      | some => simp
      | none =>
        simp only [Option.elim_none, forall_const, tombstones_le_iff hbefore (h.trans hshown),
          below_eq_iff]

/-- An overlay keeps up when every mark is admitted at its place. -/
theorem keeps_of_admits (h : ∀ done mark, done ++ [mark] <+: marks → Admits rank before done mark) :
    Keeps rank before marks := by
  induction marks using List.reverseRecOn with
  | nil =>
    rw [keeps_iff, List.append_nil]
    cases shown rank before with
    | none => rfl
    | some => simp [kept, puts, tombstones, newest, keep, Option.filter]
  | append_singleton marks mark ih =>
    refine (keeps_concat_iff (ih fun done m hdone => ?_) mark).mpr (h marks mark List.prefix_rfl)
    exact h done m (hdone.trans (List.prefix_append marks [mark]))

end DtgProxy.Lib.Overlay

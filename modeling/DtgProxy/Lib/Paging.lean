import DtgProxy.Lib.Result

/-! # Reading an ordered feed page by page

A reader asks for the rows after a cursor, a page at a time, and folds a step
over them within a budget of pages.  When every page is the next stretch of one
ordered feed, the loop is the fold over the rest of the feed, cut at the budget.
-/
namespace DtgProxy.Lib.Paging

variable {ε α κ σ : Type}

/-- A page: its rows and, if there are more, the cursor to continue after. -/
structure Page (α κ : Type) where
  rows : List α
  next : Option κ

/-- The parts of a paged read: how a page is fetched, what is done with a row of
the page after a cursor, when a continuation is accepted, and the errors. -/
structure Scan (ε α κ σ : Type) where
  fetch : Option κ → Except ε (Page α κ)
  visit : Option κ → σ → α → Except ε σ
  advances : Option κ → Page α κ → κ → Bool
  recordLimit : ℕ
  outOfPages : ε
  outOfRecords : ε
  stuck : ε

/-- Reads at most `pages` more pages. -/
def Scan.run (scan : Scan ε α κ σ) : ℕ → Option κ → ℕ → σ → Except ε σ
  | 0, _, _, _ => .error scan.outOfPages
  | pages + 1, after, records, s => do
    let page ← scan.fetch after
    if scan.recordLimit < records + page.rows.length then .error scan.outOfRecords
    else do
      let s' ← page.rows.foldlM (scan.visit after) s
      match page.next with
      | none => .ok s'
      | some next =>
        if scan.advances after page next then
          scan.run pages (some next) (records + page.rows.length) s'
        else .error scan.stuck

section Feed

variable [LinearOrder κ] (key : α → κ)
variable {feed : List α}

def rest (feed : List α) (after : Option κ) : List α :=
  feed.filter fun row => decide (∀ cursor ∈ after, cursor < key row)

theorem mem_rest {after : Option κ} {row : α} :
    row ∈ rest key feed after ↔ row ∈ feed ∧ ∀ cursor ∈ after, cursor < key row := by
  simp [rest]

theorem filter_lt_last {rows : List α} (hordered : rows.Pairwise (fun a b => key a < key b))
    {n : ℕ} {last : α} (hlast : (rows.take n).getLast? = some last) :
    rows.filter (fun row => decide (key last < key row)) = rows.drop n := by
  obtain ⟨before, hbefore⟩ := List.getLast?_eq_some_iff.mp hlast
  have hsplit : rows = before ++ last :: rows.drop n := by
    have h := List.take_append_drop n rows
    rw [hbefore, List.append_assoc] at h
    exact h.symm
  rw [hsplit, List.pairwise_append, List.pairwise_cons] at hordered
  obtain ⟨-, ⟨hmore, -⟩, hpage⟩ := hordered
  conv_lhs => rw [hsplit]
  rw [List.filter_append, List.filter_cons_of_neg (by simp),
    List.filter_eq_self.mpr fun row hrow => decide_eq_true (hmore row hrow),
    List.filter_eq_nil_iff.mpr, List.nil_append]
  intro row hrow
  simpa using le_of_lt (hpage row hrow last List.mem_cons_self)

/-- After the last row of a page comes what the page left out. -/
theorem rest_last (hordered : feed.Pairwise (fun a b => key a < key b)) {after : Option κ} {n : ℕ}
    {last : α} (hlast : ((rest key feed after).take n).getLast? = some last) :
    rest key feed (some (key last)) = (rest key feed after).drop n := by
  have hcursor : ∀ cursor ∈ after, cursor < key last :=
    ((mem_rest key).mp (List.mem_of_mem_take (List.mem_of_getLast? hlast))).2
  have hrest : (rest key feed after).Pairwise (fun a b => key a < key b) := hordered.filter _
  rw [← filter_lt_last key hrest hlast, rest, rest, List.filter_filter]
  apply List.filter_congr
  intro row _
  rw [Bool.eq_iff_iff]
  simp only [decide_eq_true_eq, Bool.and_eq_true, Option.mem_def, Option.some.injEq, forall_eq']
  exact ⟨fun hlt => ⟨hlt, fun cursor hc => lt_trans (hcursor cursor hc) hlt⟩, fun h => h.1⟩

/-- The scan reads the feed: pages are cut from it in order, a visit does not
depend on where its page started, and every continuation is accepted. -/
structure Reads (scan : Scan ε α κ σ) (feed : List α) (limit : ℕ) (good : Option κ → Prop)
    (step : σ → α → Except ε σ) : Prop where
  ordered : feed.Pairwise (fun a b => key a < key b)
  positive : 0 < limit
  good_row : ∀ row ∈ feed, good (some (key row))
  fetch : ∀ after, good after → scan.fetch after =
    .ok ⟨(rest key feed after).take limit,
      if limit < (rest key feed after).length then
        ((rest key feed after).take limit).getLast?.map key
      else none⟩
  visit : ∀ after s, good after → ∀ row ∈ rest key feed after, scan.visit after s row = step s row
  advances : ∀ after page, good after → ∀ row ∈ rest key feed after,
    page.rows.getLast? = some row → scan.advances after page (key row) = true

theorem foldlM_congr {step step' : σ → α → Except ε σ} {rows : List α}
    (h : ∀ s, ∀ row ∈ rows, step s row = step' s row) (s : σ) :
    rows.foldlM step s = rows.foldlM step' s := by
  induction rows generalizing s with
  | nil => rfl
  | cons row rows ih =>
    rw [List.foldlM_cons, List.foldlM_cons, h s row List.mem_cons_self]
    congr 1
    funext s'
    exact ih (fun s row hrow => h s row (List.mem_cons_of_mem _ hrow)) s'

variable {key}

/-- The whole loop.  The record budget is never the one that runs out: every
page but the last is full. -/
theorem Reads.run_eq {scan : Scan ε α κ σ} {limit : ℕ} {good : Option κ → Prop}
    {step : σ → α → Except ε σ} (h : Reads key scan feed limit good step) (pages : ℕ)
    (after : Option κ) (hafter : good after) (records : ℕ)
    (hrecords : records + pages * limit ≤ scan.recordLimit)
    (hpages : pages = 0 → rest key feed after ≠ []) (s : σ) :
    scan.run pages after records s =
      (do
        let s' ← ((rest key feed after).take (pages * limit)).foldlM step s
        if pages * limit < (rest key feed after).length then .error scan.outOfPages
        else .ok s') := by
  induction pages generalizing after records s with
  | zero =>
    have hlength : 0 < (rest key feed after).length := List.length_pos_of_ne_nil (hpages rfl)
    simp [Scan.run, hlength]
  | succ pages ih =>
    have hmul : (pages + 1) * limit = limit + pages * limit := by rw [Nat.succ_mul, Nat.add_comm]
    have htake : ((rest key feed after).take limit).length ≤ limit := List.length_take_le _ _
    have hvisit : ((rest key feed after).take limit).foldlM (scan.visit after) s =
        ((rest key feed after).take limit).foldlM step s :=
      foldlM_congr (fun s row hrow => h.visit after s hafter row (List.mem_of_mem_take hrow)) s
    rw [Scan.run, h.fetch after hafter]
    change (if _ then _ else _) = _
    rw [if_neg (by rw [hmul] at hrecords; dsimp only; omega)]
    simp only [hvisit]
    by_cases hmore : limit < (rest key feed after).length
    · -- A full page: the rest is read by the remaining budget.
      have hne : (rest key feed after).take limit ≠ [] := by
        intro hnil
        have := congrArg List.length hnil
        rw [List.length_take, List.length_nil] at this
        have := h.positive
        omega
      obtain ⟨last, hlast⟩ := List.getLast?_isSome.mpr hne |> Option.isSome_iff_exists.mp
      have hmem : last ∈ rest key feed after :=
        List.mem_of_mem_take (List.mem_of_getLast? hlast)
      have hdrop := rest_last key h.ordered hlast
      have hfull : ((rest key feed after).take limit).length = limit := by
        rw [List.length_take]
        omega
      rw [if_pos hmore, hmul, List.take_add, List.foldlM_append, bind_assoc]
      refine bind_congr fun s' => ?_
      have hnext : (rest key feed (some (key last))) ≠ [] := by
        rw [hdrop]
        intro hnil
        have := congrArg List.length hnil
        rw [List.length_drop, List.length_nil] at this
        omega
      rw [hlast]
      simp only [Option.map_some]
      rw [if_pos (h.advances after _ hafter last hmem hlast), hfull,
        ih _ (h.good_row last ((mem_rest key).mp hmem).1) _ (by rw [hmul] at hrecords; omega)
          (fun _ => hnext), hdrop]
      refine bind_congr fun s'' => ?_
      rw [List.length_drop]
      exact if_congr (by omega) rfl rfl
    · have hall : (rest key feed after).take limit = rest key feed after :=
        List.take_of_length_le (not_lt.mp hmore)
      rw [if_neg hmore, hall, List.take_of_length_le (by rw [hmul]; omega)]
      refine bind_congr fun s' => ?_
      rw [if_neg (by rw [hmul]; omega)]

/-- The rows of all pages from a cursor on, if at most `pages` pages end the read. -/
def collect (fetch : Option κ → Page α κ) : ℕ → Option κ → Option (List (List α))
  | 0, _ => none
  | pages + 1, after =>
    match (fetch after).next with
    | none => some [(fetch after).rows]
    | some next => (collect fetch pages (some next)).map ((fetch after).rows :: ·)

/-- The pages are cut from the feed in order: together they are the rest of it. -/
theorem collect_eq (hordered : feed.Pairwise (fun a b => key a < key b)) {limit : ℕ}
    (hlimit : 0 < limit) {fetch : Option κ → Page α κ}
    (hfetch : ∀ after, fetch after = ⟨(rest key feed after).take limit,
      if limit < (rest key feed after).length then
        ((rest key feed after).take limit).getLast?.map key
      else none⟩)
    (pages : ℕ) (after : Option κ) (hpages : (rest key feed after).length < pages) :
    ∃ rows, collect fetch pages after = some rows ∧ rows.flatten = rest key feed after ∧
      ∀ page ∈ rows, page.length ≤ limit := by
  induction pages generalizing after with
  | zero => omega
  | succ pages ih =>
    have hpage : ((rest key feed after).take limit).length ≤ limit := List.length_take_le _ _
    rw [collect, hfetch]
    by_cases hmore : limit < (rest key feed after).length
    · have hne : (rest key feed after).take limit ≠ [] := by
        rw [Ne, List.take_eq_nil_iff, ← List.length_eq_zero_iff]
        omega
      obtain ⟨last, hlast⟩ := List.getLast?_isSome.mpr hne |> Option.isSome_iff_exists.mp
      have hdrop := rest_last key hordered hlast
      obtain ⟨rows, hrows, hflatten, hsizes⟩ := ih (some (key last)) (by
        rw [hdrop, List.length_drop]
        omega)
      refine ⟨(rest key feed after).take limit :: rows, ?_, ?_, ?_⟩
      · simp only [if_pos hmore, hlast, Option.map_some, hrows]
      · rw [List.flatten_cons, hflatten, hdrop, List.take_append_drop]
      · exact List.forall_mem_cons.mpr ⟨hpage, hsizes⟩
    · refine ⟨[(rest key feed after).take limit], ?_, ?_, ?_⟩
      · simp only [if_neg hmore]
      · rw [List.flatten_singleton, List.take_of_length_le (not_lt.mp hmore)]
      · intro page hmem
        rw [List.mem_singleton.mp hmem]
        exact hpage

end Feed

end DtgProxy.Lib.Paging

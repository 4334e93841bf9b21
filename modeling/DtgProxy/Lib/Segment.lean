import DtgProxy.Lib.OrderedMap

/-! # Maps over a segment of the naturals

A log keeps its entries under consecutive indices.  The indices of such a map
form an order-connected set; cutting the map at an index and continuing it from
there keeps it so.  A reader with a byte budget takes the longest prefix of the
entries that fits.
-/
namespace DtgProxy.Lib.Segment

variable {ν : Type} {m m' : OrderedMap ℕ ν}

/-- No index is missing between two indices of the map. -/
def Contiguous (m : OrderedMap ℕ ν) : Prop := {i | i ∈ m}.OrdConnected

theorem contiguous_empty : Contiguous (∅ : OrderedMap ℕ ν) := by
  have h : {i : ℕ | i ∈ (∅ : OrderedMap ℕ ν)} = ∅ := by
    ext i
    simp
  rw [Contiguous, h]
  exact Set.ordConnected_empty

theorem Contiguous.mem (h : Contiguous m) {i j k : ℕ} (hi : i ∈ m) (hk : k ∈ m) (hij : i ≤ j)
    (hjk : j ≤ k) : j ∈ m :=
  h.out hi hk ⟨hij, hjk⟩

/-- An ascending list of naturals without gaps goes up by one. -/
theorem isChain_of_ordConnected {keys : List ℕ} (hordered : keys.Pairwise (· < ·))
    (hconnected : {i | i ∈ keys}.OrdConnected) : keys.IsChain (fun a b => b = a + 1) := by
  rw [List.isChain_iff_forall_rel_of_append_cons_cons]
  rintro a b before after rfl
  obtain ⟨-, htail, hbefore⟩ := List.pairwise_append.mp hordered
  obtain ⟨hab, hafter⟩ := List.pairwise_cons.mp htail
  have hlt : a < b := hab b List.mem_cons_self
  have hnext : a + 1 ∈ before ++ a :: b :: after :=
    hconnected.out (by simp : a ∈ before ++ a :: b :: after)
      (by simp : b ∈ before ++ a :: b :: after) ⟨by omega, hlt⟩
  -- the successor of `a` is listed, and between `a` and `b` nothing is
  rcases List.mem_append.mp hnext with hin | hin
  · have := hbefore _ hin a List.mem_cons_self
    omega
  · rcases List.mem_cons.mp hin with heq | hin
    · omega
    · rcases List.mem_cons.mp hin with heq | hin
      · exact heq.symm
      · have := (List.pairwise_cons.mp hafter).1 _ hin
        omega

theorem ordered_keys (m : OrderedMap ℕ ν) : m.keys.Pairwise (· < ·) :=
  Std.ExtTreeMap.ordered_keys.imp compare_lt_iff_lt.mp

/-- The indices are visited one after another. -/
theorem Contiguous.isChain_keys (h : Contiguous m) : m.keys.IsChain (fun a b => b = a + 1) := by
  refine isChain_of_ordConnected (ordered_keys m) ?_
  simp only [Std.ExtTreeMap.mem_keys]
  exact h

/-- So are those of a range. -/
theorem Contiguous.isChain_range (h : Contiguous m) (low high : ℕ) :
    (m.keys.filter (fun i => low ≤ i ∧ i < high)).IsChain (fun a b => b = a + 1) := by
  refine isChain_of_ordConnected ((ordered_keys m).filter _) ?_
  have hset : {i | i ∈ m.keys.filter (fun i => low ≤ i ∧ i < high)} =
      {i | i ∈ m} ∩ Set.Ico low high := by
    ext i
    simp
  rw [hset]
  exact Set.OrdConnected.inter h Set.ordConnected_Ico

/-- The map is cut at `k`. -/
theorem Contiguous.below (h : Contiguous m) {k : ℕ} (hm' : ∀ i, i ∈ m' ↔ i ∈ m ∧ i < k) :
    Contiguous m' := by
  refine ⟨fun i hi j hj l hl => ?_⟩
  have hi' := (hm' i).mp hi
  have hj' := (hm' j).mp hj
  exact (hm' l).mpr ⟨h.mem hi'.1 hj'.1 hl.1 hl.2, lt_of_le_of_lt hl.2 hj'.2⟩

/-- The map is cut at `k` and continued from there up to `stop`. -/
theorem Contiguous.splice (h : Contiguous m) {k stop : ℕ}
    (hreach : ∀ i ∈ m, i < k → k - 1 ∈ m)
    (hm' : ∀ i, i ∈ m' ↔ (i ∈ m ∧ i < k) ∨ (k ≤ i ∧ i < stop)) : Contiguous m' := by
  refine ⟨fun i hi j hj l hl => (hm' l).mpr ?_⟩
  obtain ⟨hil, hlj⟩ := hl
  rcases (hm' j).mp hj with ⟨hjm, hjk⟩ | ⟨-, hjstop⟩
  · rcases (hm' i).mp hi with ⟨him, -⟩ | ⟨hki, -⟩
    · exact .inl ⟨h.mem him hjm hil hlj, by omega⟩
    · omega
  · by_cases hlk : l < k
    · rcases (hm' i).mp hi with ⟨him, hik⟩ | ⟨hki, -⟩
      · exact .inl ⟨h.mem him (hreach i him hik) hil (by omega), hlk⟩
      · omega
    · exact .inr ⟨by omega, by omega⟩

section Lists

variable {α : Type}

/-- The pairs of neighbours of a list. -/
def windows (xs : List α) : List (α × α) := xs.zip (xs.drop 1)

theorem any_windows_eq_false_iff {p : α × α → Bool} (xs : List α) :
    (windows xs).any p = false ↔ xs.IsChain (fun a b => p (a, b) = false) := by
  induction xs with
  | nil => simp [windows]
  | cons x xs ih =>
    cases xs with
    | nil => simp [windows]
    | cons y ys =>
      have hwindows : windows (x :: y :: ys) = (x, y) :: windows (y :: ys) := rfl
      rw [hwindows, List.any_cons, Bool.or_eq_false_iff, ih, List.isChain_cons_cons]

/-- A list is split in one way at the first element that fails a test. -/
theorem split_unique {p : α → Prop} {before after before' after' : List α} {x x' : α}
    (h : before ++ x :: after = before' ++ x' :: after') (hbefore : ∀ y ∈ before, p y) (hx : ¬ p x)
    (hbefore' : ∀ y ∈ before', p y) (hx' : ¬ p x') :
    before = before' ∧ x = x' ∧ after = after' := by
  classical
  have hdrop : ∀ {ys zs : List α} {z : α}, (∀ y ∈ ys, p y) → ¬ p z →
      (ys ++ z :: zs).dropWhile (fun y => decide (p y)) = z :: zs := by
    intro ys zs z hys hz
    rw [List.dropWhile_append_of_pos (by simpa using hys), List.dropWhile_cons_of_neg (by simpa)]
  have htail : x :: after = x' :: after' := by
    rw [← hdrop hbefore hx, h, hdrop hbefore' hx']
  rw [htail] at h
  exact ⟨List.append_cancel_right h, List.cons.inj htail⟩

/-- The first index of a map is its least. -/
theorem least_of_head? {i : ℕ} (h : m.keys.head? = some i) : i ∈ m ∧ ∀ j ∈ m, i ≤ j := by
  have hordered := ordered_keys m
  obtain ⟨rest, hkeys⟩ := List.head?_eq_some_iff.mp h
  refine ⟨Std.ExtTreeMap.mem_keys.mp (by rw [hkeys]; exact List.mem_cons_self), fun j hj => ?_⟩
  rw [← Std.ExtTreeMap.mem_keys, hkeys] at hj
  rw [hkeys] at hordered
  rcases List.mem_cons.mp hj with rfl | hj
  · exact le_refl j
  · exact le_of_lt ((List.pairwise_cons.mp hordered).1 j hj)

/-- The last index of a map is its greatest. -/
theorem greatest_of_getLast? {i : ℕ} (h : m.keys.getLast? = some i) :
    i ∈ m ∧ ∀ j ∈ m, j ≤ i := by
  have hordered := ordered_keys m
  obtain ⟨rest, hkeys⟩ := List.getLast?_eq_some_iff.mp h
  refine ⟨Std.ExtTreeMap.mem_keys.mp (by rw [hkeys]; simp), fun j hj => ?_⟩
  rw [← Std.ExtTreeMap.mem_keys, hkeys] at hj
  rw [hkeys] at hordered
  rcases List.mem_append.mp hj with hj | hj
  · exact le_of_lt ((List.pairwise_append.mp hordered).2.2 j hj i List.mem_cons_self)
  · exact le_of_eq (List.mem_singleton.mp hj)

end Lists

section Updates

variable {κ μ : Type} [LinearOrder κ]

theorem lookup_foldl_erase (keys : List κ) (m : OrderedMap κ μ) (i : κ) :
    (keys.foldl (fun m k => m.erase k) m)[i]? = if i ∈ keys then none else m[i]? := by
  induction keys generalizing m with
  | nil => simp
  | cons k keys ih =>
    rw [List.foldl_cons, ih, OrderedMap.lookup_erase]
    by_cases hk : k = i
    · simp [hk]
    · by_cases hi : i ∈ keys
      · simp [hi]
      · simp [hi, hk, Ne.symm hk]

/-- Of the values written under one key the last stays. -/
theorem lookup_foldl_insert_last {α : Type} (key : α → κ) (value : α → μ) (xs : List α)
    (m : OrderedMap κ μ) (i : κ) :
    (xs.foldl (fun m x => m.insert (key x) (value x)) m)[i]? =
      ((xs.filter (fun x => key x = i)).getLast?.map value).or m[i]? := by
  induction xs using List.reverseRecOn with
  | nil => simp
  | append_singleton xs x ih =>
    rw [List.foldl_append, List.foldl_cons, List.foldl_nil, OrderedMap.lookup_insert, ih,
      List.filter_append]
    by_cases hx : key x = i
    · simp [hx]
    · simp [hx]

/-- What is kept from `cut` on is removed. -/
theorem lookup_cut (m : OrderedMap κ μ) {keys : List κ} (hkeys : ∀ i, i ∈ m → i ∈ keys)
    (cut i : κ) :
    ((keys.filter (fun k => cut ≤ k)).foldl (fun m k => m.erase k) m)[i]? =
      if i < cut then m[i]? else none := by
  rw [lookup_foldl_erase]
  by_cases hi : i < cut
  · rw [if_pos hi, if_neg (by simp [hi])]
  · rw [if_neg hi]
    split_ifs with hmem
    · rfl
    · by_contra hsome
      have hin : i ∈ m := by
        rw [← Std.ExtTreeMap.isSome_getElem?_iff_mem]
        exact Option.isSome_iff_ne_none.mpr hsome
      exact hmem (List.mem_filter.mpr ⟨hkeys i hin, by simpa using not_lt.mp hi⟩)

/-- What is kept from `cut` on is replaced by what is written from there on. -/
theorem lookup_replace {α : Type} (key : α → κ) (value : α → μ) (xs : List α) (m : OrderedMap κ μ)
    {keys : List κ} (hkeys : ∀ i, i ∈ m → i ∈ keys) (cut i : κ) :
    ((xs.filter (fun x => cut ≤ key x)).foldl (fun m x => m.insert (key x) (value x))
      ((keys.filter (fun k => cut ≤ k)).foldl (fun m k => m.erase k) m))[i]? =
    if i < cut then m[i]? else (xs.filter (fun x => key x = i)).getLast?.map value := by
  rw [lookup_foldl_insert_last, lookup_cut m hkeys, List.filter_filter]
  by_cases hi : i < cut
  · have hnone : xs.filter (fun x => decide (key x = i) && decide (cut ≤ key x)) = [] := by
      rw [List.filter_eq_nil_iff]
      rintro x - hx
      simp only [Bool.and_eq_true, decide_eq_true_eq] at hx
      exact absurd hi (not_lt.mpr (hx.1 ▸ hx.2))
    rw [if_pos hi, if_pos hi, hnone]
    rfl
  · have hsame : xs.filter (fun x => decide (key x = i) && decide (cut ≤ key x)) =
        xs.filter (fun x => key x = i) := by
      refine List.filter_congr fun x _ => ?_
      by_cases hx : key x = i
      · simp [hx, not_lt.mp hi]
      · simp [hx]
    rw [if_neg hi, if_neg hi, hsame, Option.or_none]

end Updates

section Budget

variable {α : Type}

/-- The longest prefix of `all` that fits. -/
structure LongestPrefix (fits : List α → Prop) (rows all : List α) : Prop where
  start : rows <+: all
  within : fits rows
  longest : ∀ other, other <+: all → fits other → other <+: rows

/-- The rows a reader takes that has used `used` and stops at the first that does
not fit. -/
def takeWithin (size : α → ℕ) (fits : ℕ → Bool) : ℕ → List α → List α
  | _, [] => []
  | used, x :: xs =>
    if fits (used + size x) then x :: takeWithin size fits (used + size x) xs else []

variable {fits : ℕ → Bool} {size : α → ℕ}

theorem takeWithin_longest (hdown : ∀ a b, a ≤ b → fits b = true → fits a = true) {used : ℕ}
    (hused : fits used = true) (xs : List α) :
    LongestPrefix (fun rows => fits (used + (rows.map size).sum) = true)
      (takeWithin size fits used xs) xs := by
  induction xs generalizing used with
  | nil =>
    refine ⟨List.prefix_rfl, by simpa [takeWithin] using hused, fun other hother _ => ?_⟩
    rwa [takeWithin]
  | cons x xs ih =>
    rw [takeWithin]
    split_ifs with hx
    · obtain ⟨hstart, hfits, hlongest⟩ := ih hx
      refine ⟨(List.prefix_cons_inj x).mpr hstart, ?_, fun other hother hfit => ?_⟩
      · rw [List.map_cons, List.sum_cons, ← Nat.add_assoc]
        exact hfits
      · cases other with
        | nil => exact List.nil_prefix
        | cons y ys =>
          obtain ⟨rfl, hys⟩ := List.cons_prefix_cons.mp hother
          rw [List.map_cons, List.sum_cons, ← Nat.add_assoc] at hfit
          exact (List.prefix_cons_inj y).mpr (hlongest ys hys hfit)
    · refine ⟨List.nil_prefix, by simpa using hused, fun other hother hfit => ?_⟩
      cases other with
      | nil => exact List.prefix_rfl
      | cons =>
        obtain ⟨rfl, -⟩ := List.cons_prefix_cons.mp hother
        rw [List.map_cons, List.sum_cons] at hfit
        exact absurd (hdown _ _ (by omega) hfit) hx

theorem takeWithin_eq_nil_iff {used : ℕ} {xs : List α} :
    takeWithin size fits used xs = [] ↔ ∀ x ∈ xs.head?, fits (used + size x) = false := by
  cases xs with
  | nil => simp [takeWithin]
  | cons =>
    rw [takeWithin]
    split_ifs with hx <;> simp [hx]

end Budget

end DtgProxy.Lib.Segment

import Mathlib

/-! # Groups of a sorted list

The elements of each key form a stretch of a list sorted by key.  Where the stretches
start is found by counting the keys and summing up the counts.
-/
namespace DtgProxy.Lib.Grouping

/-- How often each key occurs, with the count of key `k` at place `k + 1`. -/
def tally (size : ℕ) (keys : List ℕ) : List ℕ :=
  keys.foldl (fun counts key => counts.modify (key + 1) (· + 1)) (List.replicate (size + 1) 0)

/-- The sums of the first elements. -/
def runningSums (total : ℕ) : List ℕ → List ℕ
  | [] => []
  | x :: xs => (total + x) :: runningSums (total + x) xs

/-- Where the elements of each key start, and where the last ones end. -/
def offsets (size : ℕ) (keys : List ℕ) : List ℕ := runningSums 0 (tally size keys)

theorem getElem?_tally {size place : ℕ} (hplace : place ≤ size) (keys : List ℕ) :
    (tally size keys)[place]? = some (keys.countP fun key => key + 1 = place) := by
  induction keys using List.reverseRecOn with
  | nil => simp [tally, hplace]
  | append_singleton keys key ih =>
    rw [tally, List.foldl_append, List.foldl_cons, List.foldl_nil, List.getElem?_modify,
      List.countP_append, List.countP_singleton]
    change (fun a => if key + 1 = place then a + 1 else a) <$> (tally size keys)[place]? = _
    rw [ih]
    by_cases heq : key + 1 = place
    · simp [heq]
    · simp [heq]

theorem getElem?_runningSums (total : ℕ) (xs : List ℕ) (place : ℕ) :
    (runningSums total xs)[place]? =
      (xs[place]?).map fun _ => total + (xs.take (place + 1)).sum := by
  induction xs generalizing total place with
  | nil => simp [runningSums]
  | cons x xs ih =>
    cases place with
    | zero => simp [runningSums]
    | succ => simp [runningSums, ih, Nat.add_assoc]

theorem countP_lt_succ (keys : List ℕ) (k : ℕ) :
    keys.countP (fun key => key < k + 1) =
      keys.countP (fun key => key < k) + keys.countP fun key => key = k := by
  induction keys with
  | nil => rfl
  | cons key keys ih =>
    simp only [List.countP_cons, decide_eq_true_eq, ih]
    split_ifs <;> omega

theorem sum_take_tally {size place : ℕ} (hplace : place ≤ size) (keys : List ℕ) :
    ((tally size keys).take (place + 1)).sum = keys.countP fun key => key < place := by
  induction place with
  | zero =>
    rw [List.take_one, List.head?_eq_getElem?, getElem?_tally hplace]
    simp
  | succ place ih =>
    rw [List.take_add_one, List.sum_append, ih (Nat.le_of_succ_le hplace), getElem?_tally hplace,
      countP_lt_succ]
    simp

theorem getElem?_offsets {size place : ℕ} (hplace : place ≤ size) (keys : List ℕ) :
    (offsets size keys)[place]? = some (keys.countP fun key => key < place) := by
  rw [offsets, getElem?_runningSums, getElem?_tally hplace, Option.map_some,
    sum_take_tally hplace, Nat.zero_add]

variable {α : Type*} {key : α → ℕ} {xs : List α}

theorem filter_split (hsorted : xs.Pairwise fun a b => key a ≤ key b) (k : ℕ) :
    (xs.filter fun x => key x < k) ++ ((xs.filter fun x => key x = k) ++
      xs.filter fun x => k < key x) = xs := by
  induction xs with
  | nil => rfl
  | cons x xs ih =>
    rw [List.pairwise_cons] at hsorted
    have hbelow : k ≤ key x → xs.filter (fun y => key y < k) = [] := fun hle =>
      List.filter_eq_nil_iff.mpr fun y hy => by simpa using hle.trans (hsorted.1 y hy)
    have hequal : k < key x → xs.filter (fun y => key y = k) = [] := fun hlt =>
      List.filter_eq_nil_iff.mpr fun y hy => by simpa using (hlt.trans_le (hsorted.1 y hy)).ne'
    have hrest := ih hsorted.2
    rcases lt_trichotomy (key x) k with hlt | heq | hlt
    · simp [hlt, hlt.ne, hlt.le, hrest]
    · rw [hbelow heq.ge, List.nil_append] at hrest
      simp [heq, hbelow heq.ge, hrest]
    · rw [hbelow hlt.le, hequal hlt, List.nil_append, List.nil_append] at hrest
      simp [hlt, hlt.ne', hlt.le, hbelow hlt.le, hequal hlt, hrest]

/-- The stretch between two offsets holds the elements of its key. -/
theorem slice_eq_filter (hsorted : xs.Pairwise fun a b => key a ≤ key b) (k : ℕ) :
    (xs.drop ((xs.map key).countP fun j => j < k)).take
        ((xs.map key).countP (fun j => j < k + 1) - (xs.map key).countP fun j => j < k) =
      xs.filter fun x => key x = k := by
  rw [countP_lt_succ, Nat.add_sub_cancel_left, List.countP_map, List.countP_map,
    List.countP_eq_length_filter, List.countP_eq_length_filter]
  change ((xs.drop (xs.filter fun x => key x < k).length).take
    (xs.filter fun x => key x = k).length) = _
  conv_lhs => enter [2, 2]; rw [← filter_split hsorted k]
  rw [List.drop_left, List.take_left]

end DtgProxy.Lib.Grouping

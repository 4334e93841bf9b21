import DtgProxy.Kernel.Identity

/-! # Property values and valid-time intervals

A property value is a tree of scalars, lists and string-keyed maps.  A map
holds its entries in ascending key order; `WellFormed` states it at every level
of a value, and the records below carry the proof.
-/
namespace DtgProxy.Kernel

open Lib

inductive KernelError where
  | zeroIdentifier
  | negativeTransactionTime (value : Int64)
  | invalidInterval (start stop : Int64)
deriving DecidableEq, Repr

def KernelError.message : KernelError → String
  | .zeroIdentifier => "identifier must be nonzero"
  | .negativeTransactionTime value =>
    "transaction time must be nonnegative: " ++ toString value.toInt
  | .invalidInterval start stop =>
    "interval start must precede end: " ++ toString start.toInt ++ " >= " ++ toString stop.toInt

/-- A half-open valid-time interval with `start < stop`. -/
@[ext] structure ValidInterval where
  start : Int64
  stop : Int64
  nonempty : start < stop
deriving DecidableEq, Repr

def ValidInterval.decade : ValidInterval := ⟨0, 10, by decide⟩

def ValidInterval.overlaps (i j : ValidInterval) : Bool :=
  decide (i.start < j.stop) && decide (j.start < i.stop)

theorem ValidInterval.overlaps_comm (i j : ValidInterval) : i.overlaps j = j.overlaps i := by
  rw [overlaps, overlaps, Bool.and_comm]

def ValidInterval.contains (i : ValidInterval) (t : Int64) : Bool :=
  decide (i.start ≤ t) && decide (t < i.stop)

inductive Value where
  | null
  | boolean (value : Bool)
  | integer (value : Int64)
  | floatBits (value : UInt64)
  | bytes (value : List UInt8)
  | string (value : String)
  | list (values : List Value)
  | map (entries : List (String × Value))
deriving Repr

namespace Value

mutual

def beq : Value → Value → Bool
  | .null, .null => true
  | .boolean a, .boolean b => a == b
  | .integer a, .integer b => a == b
  | .floatBits a, .floatBits b => a == b
  | .bytes a, .bytes b => a == b
  | .string a, .string b => a == b
  | .list a, .list b => beqList a b
  | .map a, .map b => beqEntries a b
  | _, _ => false

def beqList : List Value → List Value → Bool
  | [], [] => true
  | a :: as, b :: bs => beq a b && beqList as bs
  | _, _ => false

def beqEntries : List (String × Value) → List (String × Value) → Bool
  | [], [] => true
  | (k, a) :: as, (l, b) :: bs => k == l && beq a b && beqEntries as bs
  | _, _ => false

end

mutual

theorem beq_iff : ∀ a b : Value, beq a b = true ↔ a = b := by
  intro a b
  cases a <;> cases b <;> simp [beq, beqList_iff, beqEntries_iff]

theorem beqList_iff : ∀ as bs : List Value, beqList as bs = true ↔ as = bs := by
  intro as bs
  cases as with
  | nil => cases bs <;> simp [beqList]
  | cons a as =>
    cases bs with
    | nil => simp [beqList]
    | cons b bs => simp [beqList, beq_iff a b, beqList_iff as bs]

theorem beqEntries_iff : ∀ as bs : List (String × Value), beqEntries as bs = true ↔ as = bs := by
  intro as bs
  match as, bs with
  | [], [] => simp [beqEntries]
  | [], _ :: _ => simp [beqEntries]
  | _ :: _, [] => simp [beqEntries]
  | (k, a) :: as, (l, b) :: bs =>
    simp [beqEntries, beq_iff a b, beqEntries_iff as bs]

end

instance : DecidableEq Value := fun a b => decidable_of_iff (beq a b = true) (beq_iff a b)

mutual

/-- Every map inside the value lists its keys in strictly ascending order. -/
def WellFormed : Value → Prop
  | .null => True
  | .boolean _ => True
  | .integer _ => True
  | .floatBits _ => True
  | .bytes _ => True
  | .string _ => True
  | .list values => ListWellFormed values
  | .map entries => EntriesWellFormed entries ∧ (entries.map Prod.fst).Pairwise (· < ·)

def ListWellFormed : List Value → Prop
  | [] => True
  | value :: values => WellFormed value ∧ ListWellFormed values

def EntriesWellFormed : List (String × Value) → Prop
  | [] => True
  | (_, value) :: entries => WellFormed value ∧ EntriesWellFormed entries

end

theorem listWellFormed_iff (values : List Value) :
    ListWellFormed values ↔ ∀ value ∈ values, WellFormed value := by
  induction values with
  | nil => simp [ListWellFormed]
  | cons value values ih => simp [ListWellFormed, ih]

theorem wellFormed_list (values : List { value : Value // value.WellFormed }) :
    (Value.list (values.map Subtype.val)).WellFormed := by
  rw [WellFormed, listWellFormed_iff]
  intro value hvalue
  obtain ⟨ordered, -, rfl⟩ := List.mem_map.mp hvalue
  exact ordered.2

theorem entriesWellFormed_iff (entries : List (String × Value)) :
    EntriesWellFormed entries ↔ ∀ entry ∈ entries, WellFormed entry.2 := by
  induction entries with
  | nil => simp [EntriesWellFormed]
  | cons entry entries ih =>
    simp [EntriesWellFormed, ih]

end Value

/-- A string-keyed map of well-formed values, in ascending key order. -/
@[ext] structure ValueMap where
  entries : List (String × Value)
  ordered : (entries.map Prod.fst).Pairwise (· < ·)
  wellFormed : Value.EntriesWellFormed entries
deriving DecidableEq, Repr

namespace ValueMap

variable {name : String} {value : Value} {entries : List (String × Value)}

theorem wellFormed_map (m : ValueMap) : (Value.map m.entries).WellFormed := by
  exact ⟨m.wellFormed, m.ordered⟩

def empty : ValueMap := ⟨[], by simp, by simp [Value.EntriesWellFormed]⟩

def insertSorted (name : String) (value : Value) :
    List (String × Value) → List (String × Value)
  | [] => [(name, value)]
  | entry :: entries =>
    if name < entry.1 then (name, value) :: entry :: entries
    else entry :: insertSorted name value entries

theorem mem_insertSorted {entry : String × Value} :
    entry ∈ insertSorted name value entries ↔ entry = (name, value) ∨ entry ∈ entries := by
  induction entries with
  | nil => simp [insertSorted]
  | cons first entries ih =>
    rw [insertSorted]
    split_ifs
    · simp
    · simp only [List.mem_cons, ih]
      tauto

theorem insertSorted_of_lt (h : ∀ entry ∈ entries, entry.1 < name) :
    insertSorted name value entries = entries ++ [(name, value)] := by
  induction entries with
  | nil => rfl
  | cons first entries ih =>
    rw [insertSorted, if_neg (lt_asymm (h first List.mem_cons_self)),
      ih fun entry hentry => h entry (List.mem_cons_of_mem _ hentry)]
    rfl

private theorem insertSorted_ordered (hordered : (entries.map Prod.fst).Pairwise (· < ·))
    (hnew : name ∉ entries.map Prod.fst) :
    ((insertSorted name value entries).map Prod.fst).Pairwise (· < ·) := by
  induction entries with
  | nil => simp [insertSorted]
  | cons first entries ih =>
    simp only [List.map_cons, List.pairwise_cons, List.mem_cons, not_or] at hordered hnew
    rw [insertSorted]
    split_ifs with hlt
    · simp only [List.map_cons, List.pairwise_cons, List.mem_cons]
      refine ⟨?_, hordered⟩
      rintro other (rfl | hother)
      · exact hlt
      · exact lt_trans hlt (hordered.1 other hother)
    · simp only [List.map_cons, List.pairwise_cons]
      refine ⟨?_, ih hordered.2 hnew.2⟩
      intro other hother
      obtain ⟨entry, hentry, rfl⟩ := List.mem_map.mp hother
      rcases mem_insertSorted.mp hentry with rfl | hold
      · exact lt_of_le_of_ne (not_lt.mp hlt) (Ne.symm hnew.1)
      · exact hordered.1 _ (List.mem_map_of_mem hold)

/-- Adds an entry under a key the map does not hold; `none` if it does. -/
def insertNew (m : ValueMap) (name : String) (value : Value) (hvalue : value.WellFormed) :
    Option ValueMap :=
  if h : name ∈ m.entries.map Prod.fst then none
  else some ⟨insertSorted name value m.entries, insertSorted_ordered m.ordered h, by
    rw [Value.entriesWellFormed_iff]
    intro entry hentry
    rcases mem_insertSorted.mp hentry with rfl | hold
    · exact hvalue
    · exact (Value.entriesWellFormed_iff _).mp m.wellFormed entry hold⟩

/-- Rebuilding a map from its entries, in order: each next key is new and goes to the end. -/
theorem insertNew_next {m read : ValueMap} {todo : List (String × Value)}
    (hm : m.entries = read.entries ++ (name, value) :: todo) (hvalue : value.WellFormed) :
    ∃ read', read.insertNew name value hvalue = some read' ∧
      m.entries = read'.entries ++ todo := by
  have hlt : ∀ entry ∈ read.entries, entry.1 < name := by
    intro entry hentry
    have hordered := m.ordered
    rw [hm, List.map_append, List.pairwise_append] at hordered
    exact hordered.2.2 _ (List.mem_map_of_mem hentry) _ (by simp)
  have hnew : name ∉ read.entries.map Prod.fst := by
    intro hold
    obtain ⟨entry, hentry, rfl⟩ := List.mem_map.mp hold
    exact lt_irrefl _ (hlt entry hentry)
  refine ⟨_, dif_neg hnew, ?_⟩
  change m.entries = insertSorted name value read.entries ++ todo
  rw [insertSorted_of_lt hlt, hm, List.append_assoc]
  rfl

end ValueMap

end DtgProxy.Kernel

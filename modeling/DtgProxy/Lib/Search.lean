import Mathlib.Algebra.BigOperators.Group.Finset.Basic
import Mathlib.Data.Fintype.EquivFin

/-! # Graph search with a queue or a stack

A search marks a vertex when it puts it on its frontier and lists it when it takes
it off.  One move either looks at one neighbour of the vertex in hand or takes the
next vertex; at the bound on the depth no neighbours are looked at.
-/
namespace DtgProxy.Lib

variable {V : Type}

inductive Discipline where
  | queue
  | stack
deriving DecidableEq, Repr

namespace Discipline

/-- The frontier with one more entry; the next to be taken stands first. -/
def push : Discipline → List (V × ℕ) → V × ℕ → List (V × ℕ)
  | queue, frontier, entry => frontier ++ [entry]
  | stack, frontier, entry => entry :: frontier

/-- The order the neighbours are looked at in: the last one pushed on a stack is
taken first. -/
def scan : Discipline → List V → List V
  | queue, neighbors => neighbors
  | stack, neighbors => neighbors.reverse

theorem push_perm (kind : Discipline) (frontier : List (V × ℕ)) (entry : V × ℕ) :
    (kind.push frontier entry).Perm (entry :: frontier) := by
  cases kind with
  | queue => exact List.perm_append_singleton entry frontier
  | stack => exact .refl _

theorem scan_perm (kind : Discipline) (neighbors : List V) :
    (kind.scan neighbors).Perm neighbors := by
  cases kind with
  | queue => exact .refl _
  | stack => exact List.reverse_perm neighbors

end Discipline

/-- Reached from a source by at most so many edges. -/
inductive Within (out : V → List V) (source : V) : ℕ → V → Prop
  | source (k : ℕ) : Within out source k source
  | edge {k : ℕ} {u v : V} : Within out source k u → v ∈ out u → Within out source (k + 1) v

theorem Within.mono {out : V → List V} {source v : V} {k l : ℕ} (h : Within out source k v)
    (hkl : k ≤ l) : Within out source l v := by
  induction h generalizing l with
  | source => exact .source l
  | edge _ hv ih =>
    obtain ⟨l, rfl⟩ := Nat.exists_eq_succ_of_ne_zero (by omega : l ≠ 0)
    exact .edge (ih (by omega)) hv

/-- Entries carry the depth they were found at; `edges` are the neighbours of the
vertex in hand, of depth `depth`, that are still to be looked at. -/
structure Search (V : Type) where
  edges : List V
  depth : ℕ
  visited : Finset V
  frontier : List (V × ℕ)
  order : List (V × ℕ)

namespace Search

variable (kind : Discipline) (out : V → List V) (bound : ℕ) (source : V)

def start : Search V := ⟨[], 0, {source}, [(source, 0)], []⟩

def Done (s : Search V) : Prop := s.edges = [] ∧ s.frontier = []

/-- What was put on the frontier so far. -/
def seen (s : Search V) : List (V × ℕ) := s.order ++ s.frontier

/-- The next vertex is listed, and its neighbours come in hand unless it stands at
the bound. -/
def take (s : Search V) (v : V) (depth : ℕ) (rest : List (V × ℕ)) : Search V :=
  { s with
    edges := if bound ≤ depth then [] else kind.scan (out v)
    depth := depth
    frontier := rest
    order := s.order ++ [(v, depth)] }

/-- The bound does not keep the neighbours of an entry from being looked at. -/
def Uncut (e : V × ℕ) : Prop := e.2 < bound ∨ out e.1 = []

/-- The invariant of a search. -/
structure Explores (s : Search V) : Prop where
  source_seen : (source, 0) ∈ s.seen
  once : (s.seen.map Prod.fst).Nodup
  visited : ∀ v, v ∈ s.visited ↔ v ∈ s.seen.map Prod.fst
  sound : ∀ e ∈ s.seen, e.2 ≤ bound ∧ Within out source e.2 e.1
  pending : ∀ u ∈ s.edges, s.depth < bound ∧ ∃ v, (v, s.depth) ∈ s.order ∧ u ∈ out v
  closed : ∀ e ∈ s.order, e.2 < bound → ∀ u ∈ out e.1, (u ∈ s.edges ∧ e.2 = s.depth) ∨
    ∃ k, (u, k) ∈ s.seen ∧ (kind = .queue → k ≤ e.2 + 1)
  -- A queue holds at most two levels, the shallower first.
  level : kind = .queue → s.seen.Pairwise (fun a b => a.2 ≤ b.2) ∧
    (∀ e ∈ s.seen, e.2 ≤ s.depth + 1) ∧ ∀ e ∈ s.frontier, s.depth ≤ e.2
  -- The way to an entry leads over listed vertices.
  deep : (∀ e ∈ s.order, e.2 < s.order.length) ∧ ∀ e ∈ s.frontier, e.2 ≤ s.order.length

theorem explores_start : Explores kind out bound source (start source) := by
  constructor <;> simp [start, seen, Within.source]

variable {kind out bound source} {s : Search V}

/-! ## What a finished search has listed -/

theorem seen_done (hdone : s.Done) : s.seen = s.order := by
  rw [seen, hdone.2, List.append_nil]

section Finished

variable (h : Explores kind out bound source s) (hdone : s.Done)

include h hdone

theorem Explores.nodup : (s.order.map Prod.fst).Nodup :=
  seen_done hdone ▸ h.once

theorem Explores.within {v : V} (hv : v ∈ s.order.map Prod.fst) : Within out source bound v := by
  obtain ⟨e, he, rfl⟩ := List.mem_map.mp hv
  obtain ⟨hle, hwithin⟩ := h.sound e (seen_done hdone ▸ he)
  exact hwithin.mono hle

/-- A vertex within the bound is listed, by a queue no deeper than it lies; a stack
must not have been cut off. -/
theorem Explores.reaches (hopen : kind = .stack → ∀ e ∈ s.order, Uncut out bound e) {k : ℕ} {v : V}
    (hk : kind = .queue → k ≤ bound) (hv : Within out source k v) :
    ∃ depth, (v, depth) ∈ s.order ∧ (kind = .queue → depth ≤ k) := by
  have hseen := seen_done hdone
  induction hv with
  | source k => exact ⟨0, hseen ▸ h.source_seen, fun _ => Nat.zero_le k⟩
  | @edge k u v _ hv ih =>
    obtain ⟨depth, hu, hle⟩ := ih fun hqueue => Nat.le_of_succ_le (hk hqueue)
    have hlt : depth < bound := by
      cases kind with
      | queue => exact (hle rfl).trans_lt (hk rfl)
      | stack => exact (hopen rfl _ hu).resolve_right (List.ne_nil_of_mem hv)
    rcases h.closed _ hu hlt v hv with ⟨hedge, _⟩ | ⟨l, hl, hless⟩
    · exact absurd (hdone.1 ▸ hedge) List.not_mem_nil
    · exact ⟨l, hseen ▸ hl, fun hqueue => (hless hqueue).trans (Nat.succ_le_succ (hle hqueue))⟩

/-- A queue lists what lies nearer first. -/
theorem Explores.nearest_first (hkind : kind = .queue) : (s.order.map Prod.fst).Pairwise
    fun u v => ∀ k, Within out source k v → Within out source k u := by
  have hsorted := (h.level hkind).1
  rw [seen_done hdone] at hsorted
  refine List.pairwise_map.mpr (hsorted.imp_of_mem fun {a b} ha hb hle k hk => ?_)
  obtain ⟨hbound, hwithin⟩ := h.sound a (seen_done hdone ▸ ha)
  refine hwithin.mono ?_
  by_cases hlt : bound < k
  · omega
  · obtain ⟨depth, hdepth, hnear⟩ := h.reaches hdone (by simp [hkind]) (fun _ => by omega) hk
    rw [List.inj_on_of_nodup_map (h.nodup hdone) hb hdepth rfl] at hle
    exact hle.trans (hnear hkind)

theorem Explores.depth_lt_card [Fintype V] : ∀ e ∈ s.order, e.2 < Fintype.card V := fun e he =>
  (h.deep.1 e he).trans_le (by simpa using (h.nodup hdone).length_le_card)

end Finished

/-! ## Moves -/

/-- A neighbour that is marked already is passed over. -/
theorem Explores.skip {u : V} {rest : List V} (h : Explores kind out bound source s)
    (hedges : s.edges = u :: rest) (hu : u ∈ s.visited) :
    Explores kind out bound source { s with edges := rest } where
  __ := h
  pending w hw := h.pending w (hedges ▸ List.mem_cons_of_mem _ hw)
  closed e he hlt w hw := by
    rcases h.closed e he hlt w hw with ⟨hw, hdepth⟩ | hw
    · rcases List.mem_cons.mp (hedges ▸ hw) with rfl | hw
      · obtain ⟨⟨_, k⟩, hk, rfl⟩ := List.mem_map.mp ((h.visited _).mp hu)
        refine .inr ⟨k, hk, fun hqueue => ?_⟩
        have := (h.level hqueue).2.1 _ hk
        omega
      · exact .inl ⟨hw, hdepth⟩
    · exact .inr hw

section Take

variable (s) (v : V) (depth : ℕ) (rest : List (V × ℕ))

theorem mem_edges_take {u : V} :
    u ∈ (s.take kind out bound v depth rest).edges ↔ depth < bound ∧ u ∈ out v := by
  unfold take
  split_ifs with hle
  · simp [hle.not_gt]
  · simp [not_le.mp hle, (kind.scan_perm _).mem_iff]

theorem length_order_take :
    (s.take kind out bound v depth rest).order.length = s.order.length + 1 :=
  List.length_append

variable {s v depth rest}

theorem Explores.take (h : Explores kind out bound source s) (hedges : s.edges = [])
    (hfrontier : s.frontier = (v, depth) :: rest) :
    Explores kind out bound source (s.take kind out bound v depth rest) := by
  have hseen : (s.take kind out bound v depth rest).seen = s.seen := by
    rw [seen, Search.take, List.append_assoc, List.singleton_append, ← hfrontier, seen]
  have hv : (v, depth) ∈ s.frontier := hfrontier ▸ List.mem_cons_self
  constructor <;> try rw [hseen]
  · exact h.source_seen
  · exact h.once
  · exact h.visited
  · exact h.sound
  · intro u hu
    obtain ⟨hlt, hu⟩ := (mem_edges_take s v depth rest).mp hu
    exact ⟨hlt, v, List.mem_append_right _ (.head _), hu⟩
  · refine List.forall_mem_append.mpr ⟨fun e he hlt u hu => .inr ?_, List.forall_mem_singleton.mpr
      fun hlt u hu => .inl ⟨(mem_edges_take s v depth rest).mpr ⟨hlt, hu⟩, rfl⟩⟩
    rcases h.closed e he hlt u hu with ⟨hmem, _⟩ | hk
    · exact absurd (hedges ▸ hmem) List.not_mem_nil
    · exact hseen ▸ hk
  · intro hqueue
    obtain ⟨hsorted, hle, hge⟩ := h.level hqueue
    refine ⟨hsorted, fun e he => (hle e he).trans (Nat.succ_le_succ (hge _ hv)), ?_⟩
    rw [seen, hfrontier] at hsorted
    exact (List.pairwise_cons.mp (List.pairwise_append.mp hsorted).2.1).1
  · rw [length_order_take]
    exact ⟨List.forall_mem_append.mpr ⟨fun e he => Nat.lt_succ_of_lt (h.deep.1 e he),
      List.forall_mem_singleton.mpr (Nat.lt_succ_of_le (h.deep.2 _ hv))⟩,
      fun e he => Nat.le_succ_of_le (h.deep.2 e (hfrontier ▸ List.mem_cons_of_mem _ he))⟩

end Take

variable [DecidableEq V]

instance (s : Search V) : Decidable s.Done := inferInstanceAs (Decidable (_ ∧ _))

variable (kind) in
/-- A vertex is marked and put on the frontier, one deeper than the one in hand. -/
def mark (s : Search V) (u : V) (rest : List V) : Search V :=
  { s with
    edges := rest
    visited := insert u s.visited
    frontier := kind.push s.frontier (u, s.depth + 1) }

variable (kind out bound) in
/-- One move of a search that is not done. -/
def visit (s : Search V) : Search V :=
  match s.edges, s.frontier with
  | u :: rest, _ => if u ∈ s.visited then { s with edges := rest } else s.mark kind u rest
  | [], (v, depth) :: rest => s.take kind out bound v depth rest
  | [], [] => s

theorem Explores.mark {u : V} {rest : List V} (h : Explores kind out bound source s)
    (hedges : s.edges = u :: rest) (hu : u ∉ s.visited) :
    Explores kind out bound source (s.mark kind u rest) := by
  obtain ⟨hbound, v, hv, huv⟩ := h.pending u (hedges ▸ List.mem_cons_self)
  have hseen : (s.mark kind u rest).seen.Perm ((u, s.depth + 1) :: s.seen) :=
    ((kind.push_perm _ _).append_left _).trans List.perm_middle
  have hmem (e) : e ∈ (s.mark kind u rest).seen ↔ e = (u, s.depth + 1) ∨ e ∈ s.seen :=
    hseen.mem_iff.trans List.mem_cons
  have hold {e} (he : e ∈ s.seen) := (hmem e).mpr (.inr he)
  refine ⟨hold h.source_seen, ?_, ?_, ?_, ?_, ?_, ?_, h.deep.1, ?_⟩
  · rw [(hseen.map _).nodup_iff]
    exact List.nodup_cons.mpr ⟨fun hmem => hu ((h.visited u).mpr hmem), h.once⟩
  · intro w
    rw [(hseen.map _).mem_iff, List.map_cons, List.mem_cons, ← h.visited]
    exact Finset.mem_insert
  · intro e he
    rcases (hmem e).mp he with rfl | he
    · exact ⟨hbound, (h.sound _ (List.mem_append_left _ hv)).2.edge huv⟩
    · exact h.sound e he
  · exact fun w hw => h.pending w (hedges ▸ List.mem_cons_of_mem _ hw)
  · intro e he hlt w hw
    rcases h.closed e he hlt w hw with ⟨hw, hdepth⟩ | ⟨k, hk, hle⟩
    · rcases List.mem_cons.mp (hedges ▸ hw) with rfl | hw
      · exact .inr ⟨_, (hmem _).mpr (.inl rfl), fun _ => by rw [hdepth]⟩
      · exact .inl ⟨hw, hdepth⟩
    · exact .inr ⟨k, hold hk, hle⟩
  · rintro rfl
    obtain ⟨hsorted, hle, hge⟩ := h.level rfl
    refine ⟨?_, ?_, List.forall_mem_append.mpr ⟨hge, List.forall_mem_singleton.mpr (Nat.le_succ _)⟩⟩
    · rw [seen, Search.mark, Discipline.push, ← List.append_assoc]
      exact List.pairwise_append.mpr ⟨hsorted, List.pairwise_singleton _ _,
        fun e he => List.forall_mem_singleton.mpr (hle e he)⟩
    · intro e he
      rcases (hmem e).mp he with rfl | he
      · exact le_rfl
      · exact hle e he
  · intro e he
    rcases List.mem_cons.mp ((kind.push_perm _ _).mem_iff.mp he) with rfl | he
    · exact h.deep.1 _ hv
    · exact h.deep.2 e he

theorem Explores.visit (h : Explores kind out bound source s) :
    Explores kind out bound source (s.visit kind out bound) := by
  unfold Search.visit
  split
  · next hedges =>
    split_ifs with hu
    · exact h.skip hedges hu
    · exact h.mark hedges hu
  · next hedges hfrontier => exact h.take hedges hfrontier
  · exact h

variable (out) in
/-- The work items a search may still take: one for each edge in hand, and one for
each vertex that is not listed yet and each of its edges. -/
def work [Fintype V] (s : Search V) : ℕ :=
  s.edges.length + ∑ v with v ∉ s.order.map Prod.fst, ((out v).length + 1)

theorem work_visit [Fintype V] (h : Explores kind out bound source s) (hdone : ¬ s.Done) :
    (s.visit kind out bound).work out < s.work out := by
  unfold visit
  split
  · next u rest hedges =>
    have hshorter : rest.length < s.edges.length := by simp [hedges]
    split_ifs <;> exact Nat.add_lt_add_right hshorter _
  · next v depth rest hedges hfrontier =>
    have hv : v ∈ ({u | u ∉ s.order.map Prod.fst} : Finset V) := by
      have honce := h.once
      rw [seen, hfrontier, List.map_append, List.map_cons] at honce
      refine Finset.mem_filter.mpr ⟨Finset.mem_univ v, fun hmem => ?_⟩
      exact (List.nodup_append.mp honce).2.2 v hmem v List.mem_cons_self rfl
    have hleft : ({u | u ∉ (s.take kind out bound v depth rest).order.map Prod.fst} : Finset V) =
        Finset.erase {u | u ∉ s.order.map Prod.fst} v := by
      ext u
      rw [Finset.mem_erase, Finset.mem_filter, Finset.mem_filter]
      simp [take, and_comm]
    have hedge : (s.take kind out bound v depth rest).edges.length ≤ (out v).length := by
      unfold take
      split_ifs
      · exact Nat.zero_le _
      · exact (kind.scan_perm (out v)).length_eq.le
    rw [work, work, hleft, hedges, ← Finset.add_sum_erase _ _ hv]
    omega
  · next hedges hfrontier => exact absurd ⟨hedges, hfrontier⟩ hdone

/-! ## The order of a stack -/

/-- Marks a vertex that is not marked yet. -/
def fresh (s : Finset V × List V) (u : V) : Finset V × List V :=
  if u ∈ s.1 then s else (insert u s.1, u :: s.2)

variable (out) in
/-- The recursive search that marks the unmarked neighbours of a vertex, the last
one first, before it goes down into them: marked before, roots, listed, marked
after. -/
inductive Preorder : Finset V → List V → List V → Finset V → Prop
  | nil (visited : Finset V) : Preorder visited [] [] visited
  | cons {visited middle last : Finset V} {v : V} {rest below later : List V} :
    Preorder ((out v).reverse.foldl fresh (visited, [])).1
      ((out v).reverse.foldl fresh (visited, [])).2 below middle →
    Preorder middle rest later last → Preorder visited (v :: rest) (v :: (below ++ later)) last

theorem Preorder.append {visited last : Finset V} {roots rest listed : List V}
    (h : Preorder out visited (roots ++ rest) listed last) :
    ∃ below later middle, listed = below ++ later ∧ Preorder out visited roots below middle ∧
      Preorder out middle rest later last := by
  induction roots generalizing visited listed with
  | nil => exact ⟨[], listed, visited, rfl, .nil visited, h⟩
  | cons v roots ih =>
    cases h with
    | cons hbelow hrest =>
      obtain ⟨below, later, middle, rfl, hroots, hlater⟩ := ih hrest
      exact ⟨_, later, middle, by rw [← List.append_assoc]; rfl, .cons hbelow hroots, hlater⟩

theorem foldl_fresh (edges : List V) (visited : Finset V) (found : List V) :
    edges.foldl fresh (visited, found) =
      ((edges.foldl fresh (visited, [])).1, (edges.foldl fresh (visited, [])).2 ++ found) := by
  induction edges generalizing visited found with
  | nil => rfl
  | cons u edges ih =>
    simp only [List.foldl_cons, fresh]
    split_ifs with hu
    · exact ih visited found
    · rw [ih, ih _ [u], List.append_assoc, List.singleton_append]

variable (out) in
/-- What a stack search lists from here on. -/
def Lists (s : Search V) (listed : List V) : Prop :=
  ∃ last, Preorder out (s.edges.foldl fresh (s.visited, s.frontier.map Prod.fst)).1
    (s.edges.foldl fresh (s.visited, s.frontier.map Prod.fst)).2 listed last

theorem lists_done (hdone : s.Done) : Lists out s [] := by
  rw [Lists, hdone.1, hdone.2]
  exact ⟨s.visited, .nil _⟩

variable (out bound) in
theorem lists_visit (hdone : ¬ s.Done) :
    ∃ step, (s.visit .stack out bound).order = s.order ++ step ∧
      ∀ listed, (∀ e ∈ step, Uncut out bound e) → Lists out (s.visit .stack out bound) listed →
        Lists out s (step.map Prod.fst ++ listed) := by
  unfold visit
  split
  · next u rest hedges =>
    refine ⟨[], ?_, fun listed _ h => ?_⟩
    · split_ifs <;> simp [mark]
    · unfold Lists
      rw [hedges, List.foldl_cons, fresh]
      split_ifs at h ⊢ with hu
      · exact h
      · exact h
  · next v depth rest hedges hfrontier =>
    refine ⟨[(v, depth)], rfl, fun listed hopen ⟨last, h⟩ => ?_⟩
    have hedges' : (s.take .stack out bound v depth rest).edges = (out v).reverse := by
      rcases List.forall_mem_singleton.mp hopen with hlt | hnone
      · exact if_neg hlt.not_ge
      · rw [take, hnone]
        exact ite_self _
    rw [hedges'] at h
    rw [foldl_fresh] at h
    obtain ⟨below, later, middle, rfl, hbelow, hlater⟩ := h.append
    have hcons := Preorder.cons hbelow hlater
    exact ⟨last, by rwa [hedges, hfrontier]⟩
  · next hedges hfrontier => exact absurd ⟨hedges, hfrontier⟩ hdone

/-! ## Runs -/

variable {ε : Type} (poll : ℕ → Except ε Unit) (exhausted : ε)

variable (kind out bound) in
/-- Moves until the search is done.  Every move takes a work item; `poll` is what
the guard says with so many items left. -/
def run : ℕ → Search V → Except ε (List (V × ℕ))
  | 0, s =>
    if s.Done then .ok s.order
    else do
      poll 0
      .error exhausted
  | left + 1, s =>
    if s.Done then .ok s.order
    else do
      poll (left + 1)
      run left (s.visit kind out bound)

/-- Enough work items bring a search to its end. -/
theorem run_eq [Fintype V] (left : ℕ) (h : Explores kind out bound source s)
    (hpoll : ∀ n, poll n = .ok ()) (hwork : s.work out ≤ left) :
    ∃ final : Search V, run kind out bound poll exhausted left s = .ok final.order ∧
      Explores kind out bound source final ∧ final.Done ∧
      (kind = .stack → (∀ e ∈ final.order, Uncut out bound e) →
        ∃ listed, final.order = s.order ++ listed ∧ Lists out s (listed.map Prod.fst)) := by
  induction left generalizing s with
  | zero =>
    by_cases hdone : s.Done
    · exact ⟨s, if_pos hdone, h, hdone, fun _ _ => ⟨[], (List.append_nil _).symm, lists_done hdone⟩⟩
    · exact absurd (work_visit h hdone) (by omega)
  | succ left ih =>
    by_cases hdone : s.Done
    · exact ⟨s, if_pos hdone, h, hdone, fun _ _ => ⟨[], (List.append_nil _).symm, lists_done hdone⟩⟩
    · have hless := work_visit h hdone
      obtain ⟨final, hrun, hfinal, hend, hlists⟩ := ih h.visit (by omega)
      refine ⟨final, ?_, hfinal, hend, ?_⟩
      · rw [run, if_neg hdone, hpoll]
        exact hrun
      · rintro rfl hopen
        obtain ⟨listed, horder, hlisted⟩ := hlists rfl hopen
        obtain ⟨step, hstep, hback⟩ := lists_visit out bound hdone
        rw [hstep, List.append_assoc] at horder
        refine ⟨step ++ listed, horder, ?_⟩
        rw [List.map_append]
        refine hback _ (fun e he => hopen e ?_) hlisted
        simp [horder, he]

end Search

end DtgProxy.Lib

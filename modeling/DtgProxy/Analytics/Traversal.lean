import DtgProxy.Kernel.Identity
import DtgProxy.Lib.Search

/-! # Graph traversals

Breadth-first and depth-first search over the forward arrays of a projected
snapshot.  Both mark a vertex when they put it on their frontier, and both spend a
work item for every vertex taken and every edge looked at.
-/
namespace DtgProxy.Analytics

open Kernel Lib

inductive AnalyticsError where
  | invalidRequest
  | resourceLimit
  | cancelled
deriving DecidableEq, Repr

/-- The forward arrays of a snapshot as they are assembled: the targets of the edges
of vertex `v` stand in `neighbors` from `offsets[v]` to `offsets[v + 1]`. -/
structure SnapshotCsr where
  vertexIds : List VertexId
  offsets : List ℕ
  neighbors : List (Fin vertexIds.length)
  ascending : vertexIds.Pairwise (· < ·)
  aligned : offsets.length = vertexIds.length + 1
  monotone : offsets.Pairwise (· ≤ ·)
  covered : offsets.getLast? = some neighbors.length

namespace SnapshotCsr

abbrev Vertex (csr : SnapshotCsr) := Fin csr.vertexIds.length

/-- A binary search over the ascending ids. -/
def vertexIndex (csr : SnapshotCsr) (id : VertexId) : Option csr.Vertex :=
  csr.vertexIds.finIdxOf? id

/-- The targets of the edges in the outgoing range of a vertex. -/
def outgoing (csr : SnapshotCsr) (v : csr.Vertex) : List csr.Vertex :=
  (csr.neighbors.take (csr.offsets.getD (v + 1) 0)).drop (csr.offsets.getD v 0)

/-- No edge stands in two outgoing ranges. -/
theorem sum_length_outgoing_le (csr : SnapshotCsr) :
    ∑ v, (csr.outgoing v).length ≤ csr.neighbors.length := by
  have hlast : csr.offsets.getD csr.vertexIds.length 0 = csr.neighbors.length := by
    have hcovered := csr.covered
    rw [List.getLast?_eq_getElem?, csr.aligned, Nat.add_sub_cancel] at hcovered
    rw [List.getD_eq_getElem?_getD, hcovered, Option.getD_some]
  have hrange : ∀ k ≤ csr.vertexIds.length, ∑ i ∈ Finset.range k,
      (csr.offsets.getD (i + 1) 0 - csr.offsets.getD i 0) ≤ csr.offsets.getD k 0 := by
    intro k
    induction k with
    | zero => simp
    | succ k ih =>
      intro hk
      have haligned := csr.aligned
      have hmono : csr.offsets.getD k 0 ≤ csr.offsets.getD (k + 1) 0 := by
        rw [List.getD_eq_getElem _ _ (by omega), List.getD_eq_getElem _ _ (by omega)]
        exact List.pairwise_iff_getElem.mp csr.monotone k (k + 1) _ _ (Nat.lt_succ_self k)
      rw [Finset.sum_range_succ]
      omega
  calc ∑ v, (csr.outgoing v).length
      ≤ ∑ v : csr.Vertex, (csr.offsets.getD (v + 1) 0 - csr.offsets.getD v 0) :=
        Finset.sum_le_sum fun v _ => by
          rw [outgoing, List.length_drop, List.length_take]
          exact Nat.sub_le_sub_right (Nat.min_le_left _ _) _
    _ ≤ csr.offsets.getD csr.vertexIds.length 0 := by
        rw [Fin.sum_univ_eq_sum_range fun i => csr.offsets.getD (i + 1) 0 - csr.offsets.getD i 0]
        exact hrange _ le_rfl
    _ = csr.neighbors.length := hlast

end SnapshotCsr

structure AlgorithmRequest where
  source : Option VertexId
  maxDepth : ℕ

/-- What an execution may still use; `cancelled` is what the cancellation token
reads with so many work items left. -/
structure ExecutionGuard where
  memory : ℕ
  work : ℕ
  cancelled : ℕ → Bool

namespace ExecutionGuard

def checkpoint (guard : ExecutionGuard) (left : ℕ) : Except AnalyticsError Unit :=
  if guard.cancelled left then .error .cancelled else .ok ()

def reserve (guard : ExecutionGuard) (bytes : ℕ) : Except AnalyticsError Unit := do
  guard.checkpoint guard.work
  if guard.memory < bytes then .error .resourceLimit else .ok ()

/-- Enough for every vertex and every edge. -/
structure Suffices (guard : ExecutionGuard) (csr : SnapshotCsr) : Prop where
  uncancelled : ∀ left, guard.cancelled left = false
  memory : csr.vertexIds.length * 9 ≤ guard.memory
  work : csr.vertexIds.length + csr.neighbors.length ≤ guard.work

end ExecutionGuard

variable (csr : SnapshotCsr) (request : AlgorithmRequest) (guard : ExecutionGuard)

def sourceIndex : Except AnalyticsError csr.Vertex :=
  match request.source.bind csr.vertexIndex with
  | some source => .ok source
  | none => .error .invalidRequest

/-- The size to reserve saturates at the largest word. -/
def traverse (kind : Discipline) : Except AnalyticsError (List VertexId) := do
  let source ← sourceIndex csr request
  guard.reserve (min (csr.vertexIds.length * 9) (2 ^ 64 - 1))
  let order ← Search.run kind csr.outgoing request.maxDepth guard.checkpoint .resourceLimit
    guard.work (.start source)
  return order.map fun entry => csr.vertexIds.get entry.1

def breadthFirstSearch : Except AnalyticsError (List VertexId) := traverse csr request guard .queue

def depthFirstSearch : Except AnalyticsError (List VertexId) := traverse csr request guard .stack

variable {csr request guard}

theorem work_start_le (csr : SnapshotCsr) (source : csr.Vertex) :
    (Search.start source).work csr.outgoing ≤ csr.vertexIds.length + csr.neighbors.length := by
  have hwork : (Search.start source).work csr.outgoing =
      ∑ v, (csr.outgoing v).length + csr.vertexIds.length := by
    simp [Search.work, Search.start, Finset.sum_add_distrib]
  have hsum := csr.sum_length_outgoing_le
  omega

theorem traverse_eq {source : csr.Vertex} (hsource : sourceIndex csr request = .ok source)
    (hguard : guard.Suffices csr) (kind : Discipline) :
    ∃ final : Search csr.Vertex,
      Search.run kind csr.outgoing request.maxDepth guard.checkpoint .resourceLimit guard.work
        (.start source) = .ok final.order ∧
      traverse csr request guard kind = .ok ((final.order.map Prod.fst).map csr.vertexIds.get) ∧
      Search.Explores kind csr.outgoing request.maxDepth source final ∧ final.Done ∧
      (kind = .stack → (∀ e ∈ final.order, Search.Uncut csr.outgoing request.maxDepth e) →
        ∃ last, Search.Preorder csr.outgoing {source} [source] (final.order.map Prod.fst)
          last) := by
  have hpoll (left) : guard.checkpoint left = .ok () := by
    rw [ExecutionGuard.checkpoint, hguard.uncancelled]
    rfl
  have hreserve : guard.reserve (min (csr.vertexIds.length * 9) (2 ^ 64 - 1)) = .ok () := by
    rw [ExecutionGuard.reserve, hpoll]
    exact if_neg (not_lt.mpr ((min_le_left _ _).trans hguard.memory))
  obtain ⟨final, hrun, hfinal, hdone, hlists⟩ := Search.run_eq guard.checkpoint
    AnalyticsError.resourceLimit guard.work
    (Search.explores_start kind csr.outgoing request.maxDepth source) hpoll
    ((work_start_le csr source).trans hguard.work)
  refine ⟨final, hrun, ?_, hfinal, hdone, fun hkind hopen => ?_⟩
  · rw [traverse, hsource, List.map_map]
    simp only [bind, Except.bind, hreserve, hrun]
    rfl
  · obtain ⟨listed, horder, hlisted⟩ := hlists hkind hopen
    rw [horder]
    exact hlisted

/-- Both searches list every vertex at most once and only vertices within the depth.
A queue misses none and lists nearer ones first.  A stack follows every edge of the
vertices it takes above the bound; when the bound cuts nothing off it misses none, and
lists them as the recursion that marks all neighbours first does. -/
theorem traversals_list_reached {source : csr.Vertex}
    (hsource : sourceIndex csr request = .ok source) (hguard : guard.Suffices csr) :
    (∃ found : List csr.Vertex,
      breadthFirstSearch csr request guard = .ok (found.map csr.vertexIds.get) ∧ found.Nodup ∧
      (∀ v, v ∈ found ↔ Within csr.outgoing source request.maxDepth v) ∧
      found.Pairwise fun u v => ∀ k, Within csr.outgoing source k v →
        Within csr.outgoing source k u) ∧
    ∃ order : List (csr.Vertex × ℕ),
      Search.run .stack csr.outgoing request.maxDepth guard.checkpoint .resourceLimit guard.work
        (.start source) = .ok order ∧
      depthFirstSearch csr request guard = .ok ((order.map Prod.fst).map csr.vertexIds.get) ∧
      (order.map Prod.fst).Nodup ∧ (source, 0) ∈ order ∧
      (∀ e ∈ order, e.2 ≤ request.maxDepth ∧ Within csr.outgoing source e.2 e.1) ∧
      (∀ e ∈ order, e.2 < request.maxDepth → ∀ u ∈ csr.outgoing e.1, u ∈ order.map Prod.fst) ∧
      ((∀ e ∈ order, Search.Uncut csr.outgoing request.maxDepth e) →
        (∀ v, v ∈ order.map Prod.fst ↔ ∃ k, Within csr.outgoing source k v) ∧
        ∃ last, Search.Preorder csr.outgoing {source} [source] (order.map Prod.fst) last) ∧
      (csr.vertexIds.length ≤ request.maxDepth → ∀ e ∈ order, e.2 < request.maxDepth) := by
  constructor
  · obtain ⟨final, -, heq, hfinal, hdone, -⟩ := traverse_eq hsource hguard .queue
    refine ⟨_, heq, hfinal.nodup hdone, fun v => ⟨hfinal.within hdone, fun hv => ?_⟩,
      hfinal.nearest_first hdone rfl⟩
    obtain ⟨depth, hmem, _⟩ := hfinal.reaches hdone (by simp) (fun _ => le_rfl) hv
    exact List.mem_map_of_mem hmem
  · obtain ⟨final, hrun, heq, hfinal, hdone, hlists⟩ := traverse_eq hsource hguard .stack
    have hseen := Search.seen_done hdone
    refine ⟨final.order, hrun, heq, hfinal.nodup hdone, hseen ▸ hfinal.source_seen,
      hseen ▸ hfinal.sound, fun e he hlt u hu => ?_, fun hopen => ⟨fun v => ⟨fun hv =>
        ⟨_, hfinal.within hdone hv⟩, fun ⟨k, hv⟩ => ?_⟩, hlists rfl hopen⟩, fun hdeep e he =>
      (hfinal.depth_lt_card hdone e he).trans_le (by rwa [Fintype.card_fin])⟩
    · rcases hfinal.closed e he hlt u hu with ⟨hedge, -⟩ | ⟨k, hk, -⟩
      · exact absurd (hdone.1 ▸ hedge) List.not_mem_nil
      · exact List.mem_map_of_mem (hseen ▸ hk)
    · obtain ⟨depth, hmem, _⟩ := hfinal.reaches hdone (fun _ => hopen) (k := k) (by simp) hv
      exact List.mem_map_of_mem hmem

/-- Two ways lead from the first vertex to the fifth, and a long one is tried first. -/
def sampleCsr : SnapshotCsr where
  vertexIds := [1, 2, 3, 4, 5, 6]
  offsets := [0, 2, 4, 5, 6, 7, 7]
  neighbors := [1, 2, 2, 3, 4, 4, 5]
  ascending := by decide +kernel
  aligned := rfl
  monotone := by decide +kernel
  covered := rfl

/-- One work item for each of the six vertices and seven edges. -/
def sampleGuard : ExecutionGuard := ⟨54, 13, fun _ => false⟩

/-- The last vertex of the sample stands at depth four, where no edge leaves it, so a
bound of four cuts nothing off. -/
theorem traversals_list_reached_sample :
    sourceIndex sampleCsr ⟨some 1, 4⟩ = .ok (0 : Fin 6) ∧ sampleGuard.Suffices sampleCsr ∧
      (∃ found : List sampleCsr.Vertex, breadthFirstSearch sampleCsr ⟨some 1, 4⟩ sampleGuard =
          .ok (found.map sampleCsr.vertexIds.get) ∧ found.Nodup ∧
        (∀ v, v ∈ found ↔ Within sampleCsr.outgoing (0 : Fin 6) 4 v) ∧
        found.Pairwise fun u v => ∀ k, Within sampleCsr.outgoing (0 : Fin 6) k v →
          Within sampleCsr.outgoing (0 : Fin 6) k u) ∧
      ∃ found : List sampleCsr.Vertex, depthFirstSearch sampleCsr ⟨some 1, 4⟩ sampleGuard =
          .ok (found.map sampleCsr.vertexIds.get) ∧ found.Nodup ∧
        (∀ v, v ∈ found ↔ ∃ k, Within sampleCsr.outgoing (0 : Fin 6) k v) ∧
        ∃ last, Search.Preorder sampleCsr.outgoing {(0 : Fin 6)} [(0 : Fin 6)] found last := by
  have hsource : sourceIndex sampleCsr ⟨some 1, 4⟩ = .ok (0 : Fin 6) := by rfl
  have hguard : sampleGuard.Suffices sampleCsr := ⟨fun _ => rfl, by decide, by decide⟩
  obtain ⟨hqueue, order, hrun, heq, hnodup, -, -, -, hopen, -⟩ :=
    traversals_list_reached hsource hguard
  refine ⟨hsource, hguard, hqueue, _, heq, hnodup, hopen ?_⟩
  have horder : Search.run .stack sampleCsr.outgoing 4 sampleGuard.checkpoint .resourceLimit 13
      (.start (0 : Fin 6)) = .ok [((0 : Fin 6), 0), ((1 : Fin 6), 1), ((3 : Fin 6), 2),
        ((4 : Fin 6), 3), ((5 : Fin 6), 4), ((2 : Fin 6), 1)] := by rfl
  cases hrun.symm.trans horder
  unfold Search.Uncut
  decide

/-- The sixth vertex lies within three edges, over the third, but the fifth was marked
on the long way and stands at the bound when it is taken.  Without a cut the second
vertex, whose first neighbour is the third, is not followed by it. -/
theorem depthFirstSearch_misses_vertex :
    depthFirstSearch sampleCsr ⟨some 1, 3⟩ sampleGuard = .ok [1, 2, 4, 5, 3] ∧
      Within sampleCsr.outgoing (0 : Fin 6) 3 (5 : Fin 6) ∧
      depthFirstSearch sampleCsr ⟨some 1, 6⟩ sampleGuard = .ok [1, 2, 4, 5, 6, 3] ∧
      sampleCsr.outgoing (1 : Fin 6) = [(2 : Fin 6), (3 : Fin 6)] := by
  refine ⟨by rfl, ?_, by rfl, by rfl⟩
  refine .edge (u := (4 : Fin 6)) (.edge (u := (2 : Fin 6)) ?_ (.head _)) (.head _)
  exact .edge (.source 0) (.tail _ (.head _))

end DtgProxy.Analytics

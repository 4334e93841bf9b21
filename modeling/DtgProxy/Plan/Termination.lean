import DtgProxy.Plan.Planner

/-! # When planning returns

The only loop of the planner without a bound is the walk from an `Expand` node
back to its vertex lookup.  The walk visits `Expand` nodes of the plan, so it
goes on for ever exactly when it comes back to a node.  Validation does not
exclude this: it checks that the numbers in a plan are declared, not that they
refer backwards.
-/
namespace DtgProxy.Plan

open Kernel Lib Storage DtgProxy.Language LogicalNode Rounds

/-! ### The walk as a relation between hops -/

/-- The hop passes the checks at the start of a round. -/
def Hop.Plain (scope : ReadScope) (hop : Hop) : Prop :=
  hop.expand.destinationLabels = [] ∧ hop.expand.relationshipTypes = [] ∧
    hop.expand.readScope = scope

def inputNode (plan : LogicalPlan) (hop : Hop) : Option LogicalNode :=
  plan.nodes.find? fun candidate => decide (candidate.id = hop.expand.input)

/-- The walk goes on from `current` with `previous`. -/
structure Follows (plan : LogicalPlan) (scope : ReadScope) (current previous : Hop) : Prop where
  plain : current.Plain scope
  input : ∃ node, inputNode plan current = some node ∧ LogicalNode.hop? node = some previous
  joined : previous.expand.destination = current.expand.source

/-- The walk ends at `current` with a vertex. -/
structure Anchors (plan : LogicalPlan) (scope : ReadScope) (current : Hop) : Prop where
  plain : current.Plain scope
  input : ∃ node lookup id, inputNode plan current = some node ∧
    node.kind = .vertexLookup lookup ∧ lookup.var = current.expand.source ∧
    lookup.labels = [] ∧ vertexId node.id lookup = .ok id

/-- The hops behind `hop` lead to a looked-up vertex. -/
def Anchored (plan : LogicalPlan) (hop : Hop) : Prop :=
  ∃ last, Relation.ReflTransGen (Follows plan hop.expand.readScope) hop last ∧
    Anchors plan hop.expand.readScope last

/-- The hops behind `hop` come back to one of them. -/
def Circular (plan : LogicalPlan) (hop : Hop) : Prop :=
  RunsIntoCycle (Follows plan hop.expand.readScope) hop

theorem hop?_eq_some_iff {node : LogicalNode} {hop : Hop} :
    hop? node = some hop ↔ node.id = hop.id ∧ node.kind = .expand hop.expand := by
  obtain ⟨id, kind⟩ := node
  obtain ⟨hopId, expand⟩ := hop
  cases kind <;> simp [hop?]

section Round

variable {plan : LogicalPlan} {scope : ReadScope} {walk : Walk}

/-- A round that passes the checks of the hop looks at the node it reads from. -/
theorem chainRound_of_plain (hplain : walk.current.Plain scope) :
    chainRound plan scope walk =
      match inputNode plan walk.current with
      | none => .done (.error (.unsupportedNode walk.current.id
          "Expand input is absent from the logical plan"))
      | some input =>
        match input.kind with
        | .vertexLookup lookup =>
          if lookup.var ≠ walk.current.expand.source then
            .done (.error (.unsupportedNode walk.current.id
              "Expand source does not match its vertex lookup input"))
          else if lookup.labels ≠ [] then
            .done (.error (.unsupportedNode input.id
              "point-anchored Expand does not yet support label predicates"))
          else .done ((vertexId input.id lookup).map fun id =>
            (id, walk.current.expand.direction :: walk.directions))
        | .expand previous =>
          if previous.destination ≠ walk.current.expand.source then
            .done (.error (.unsupportedNode walk.current.id
              "Expand source does not match its preceding destination"))
          else .next ⟨⟨input.id, previous⟩, walk.current.expand.direction :: walk.directions⟩
        | _ => .done (.error (.unsupportedNode walk.current.id
            "Expand requires a point-anchored traversal input")) := by
  obtain ⟨hlabels, htypes, hscope⟩ := hplain
  unfold chainRound
  rw [if_neg (by simp [hlabels, htypes]), if_neg (by simp [hscope])]
  rfl

/-- A hop that fails its checks ends the walk with an error. -/
theorem chainRound_of_not_plain (plan : LogicalPlan) (hplain : ¬ walk.current.Plain scope) :
    ∃ error, chainRound plan scope walk = .done (.error error) := by
  unfold chainRound
  by_cases hlabels : walk.current.expand.destinationLabels ≠ [] ∨
      walk.current.expand.relationshipTypes ≠ []
  · exact ⟨_, if_pos hlabels⟩
  · rw [not_or, not_not, not_not] at hlabels
    have hscope : walk.current.expand.readScope ≠ scope :=
      fun h => hplain ⟨hlabels.1, hlabels.2, h⟩
    rw [if_neg (by simp [hlabels]), if_pos hscope]
    exact ⟨_, rfl⟩

theorem chainRound_eq_next_iff {walk' : Walk} :
    chainRound plan scope walk = .next walk' ↔
      Follows plan scope walk.current walk'.current ∧
        walk'.directions = walk.current.expand.direction :: walk.directions := by
  by_cases hplain : walk.current.Plain scope
  · rw [chainRound_of_plain hplain]
    constructor
    · intro h
      split at h
      · cases h
      · rename_i input hinput
        split at h
        · split_ifs at h
        · rename_i previous hkind
          split_ifs at h with hjoined
          cases h
          refine ⟨⟨hplain, ⟨input, hinput, hop?_eq_some_iff.mpr ⟨rfl, hkind⟩⟩, ?_⟩, rfl⟩
          exact not_not.mp hjoined
        · cases h
    · rintro ⟨⟨-, ⟨node, hnode, hhop⟩, hjoined⟩, hdirections⟩
      obtain ⟨hid, hkind⟩ := hop?_eq_some_iff.mp hhop
      obtain ⟨⟨id, previous⟩, directions⟩ := walk'
      dsimp only at hid hkind hjoined hdirections
      rw [hnode]
      dsimp only
      rw [hkind]
      dsimp only
      rw [if_neg (not_not.mpr hjoined), hid, hdirections]
  · obtain ⟨error, herror⟩ := chainRound_of_not_plain plan hplain
    rw [herror]
    constructor
    · intro h
      cases h
    · rintro ⟨hfollows, -⟩
      exact absurd hfollows.plain hplain

theorem chainRound_eq_done_ok_iff :
    (∃ result, chainRound plan scope walk = .done (.ok result)) ↔
      Anchors plan scope walk.current := by
  by_cases hplain : walk.current.Plain scope
  · rw [chainRound_of_plain hplain]
    constructor
    · rintro ⟨result, h⟩
      split at h
      · cases h
      · rename_i input hinput
        split at h
        · rename_i lookup hkind
          split_ifs at h with hvar hlabels
          · cases h
          · cases h
          · cases hid : vertexId input.id lookup with
            | error =>
              rw [hid] at h
              cases h
            | ok id =>
              exact ⟨hplain, input, lookup, id, hinput, hkind, not_not.mp hvar,
                not_not.mp hlabels, hid⟩
        · split_ifs at h
          cases h
        · cases h
    · rintro ⟨-, node, lookup, id, hnode, hkind, hvar, hlabels, hid⟩
      refine ⟨(id, walk.current.expand.direction :: walk.directions), ?_⟩
      rw [hnode]
      dsimp only
      rw [hkind]
      dsimp only
      rw [if_neg (not_not.mpr hvar), if_neg (not_not.mpr hlabels), hid]
      rfl
  · obtain ⟨error, herror⟩ := chainRound_of_not_plain plan hplain
    rw [herror]
    constructor
    · rintro ⟨result, h⟩
      cases h
    · intro hanchors
      exact absurd hanchors.plain hplain

end Round

/-! ### One walk -/

section Passes

variable {plan : LogicalPlan}
variable {node : LogicalNode}
variable {hop : Hop}

theorem tracks_chainRound (plan : LogicalPlan) (scope : ReadScope) :
    Tracks (chainRound plan scope) Walk.current (Follows plan scope) where
  follows_of_next h := (chainRound_eq_next_iff.mp h).1
  next_of_follows {walk place} h :=
    ⟨⟨place, walk.current.expand.direction :: walk.directions⟩,
      chainRound_eq_next_iff.mpr ⟨h, rfl⟩, rfl⟩

def hops (plan : LogicalPlan) : Set Hop := {hop | hop ∈ plan.nodes.filterMap LogicalNode.hop?}

theorem finite_hops (plan : LogicalPlan) : (hops plan).Finite :=
  List.finite_toSet _

theorem mem_hops_of_mem (hnode : node ∈ plan.nodes)
    (hhop : hop? node = some hop) : hop ∈ hops plan :=
  List.mem_filterMap.mpr ⟨node, hnode, hhop⟩

theorem Follows.mem_hops {scope : ReadScope} {current previous : Hop}
    (h : Follows plan scope current previous) : previous ∈ hops plan := by
  obtain ⟨node, hnode, hhop⟩ := h.input
  exact mem_hops_of_mem (List.mem_of_find?_eq_some hnode) hhop

theorem steady_chain (hop : Hop) :
    Rounds.Steady (fun fuel => pointAnchoredExpandChain fuel plan hop) :=
  fun _ _ hle _ h => loop_mono hle h

theorem chain_returns_iff (hhop : hop ∈ hops plan) :
    Rounds.Returns (fun fuel => pointAnchoredExpandChain fuel plan hop) ↔
      ¬ Circular plan hop := by
  have hstart : (⟨hop, []⟩ : Walk).current ∈ hops plan := hhop
  exact (tracks_chainRound plan hop.expand.readScope).returns_iff (finite_hops plan)
    (fun _ _ _ hfollows => hfollows.mem_hops) hstart

/-- A circular walk has not returned after any number of rounds. -/
theorem chain_eq_none (hcircular : Circular plan hop) (fuel : ℕ) :
    pointAnchoredExpandChain fuel plan hop = ExceptT.mk none := by
  have hstart : RunsIntoCycle (Follows plan hop.expand.readScope) (⟨hop, []⟩ : Walk).current :=
    hcircular
  exact (tracks_chainRound plan hop.expand.readScope).loop_eq_none hstart fuel

/-- The directions gathered on the way do not influence the walk. -/
theorem exists_walk_of_follows {scope : ReadScope} {last : Hop}
    (h : Relation.ReflTransGen (Follows plan scope) hop last) :
    ∃ walk : Walk, walk.current = last ∧
      Relation.ReflTransGen (fun a b => chainRound plan scope a = .next b) ⟨hop, []⟩ walk := by
  induction h with
  | refl => exact ⟨⟨hop, []⟩, rfl, .refl⟩
  | @tail middle later _ hstep ih =>
    obtain ⟨walk, rfl, hwalks⟩ := ih
    exact ⟨⟨later, walk.current.expand.direction :: walk.directions⟩, rfl,
      hwalks.tail (chainRound_eq_next_iff.mpr ⟨hstep, rfl⟩)⟩

/-- The walk ends with a vertex exactly when the hop is anchored. -/
theorem chain_returnsOk_iff (hop : Hop) :
    (∃ result, Rounds.ReturnsOk (fun fuel => pointAnchoredExpandChain fuel plan hop) result) ↔
      Anchored plan hop := by
  have hwalk : ∀ result, Rounds.ReturnsOk (fun fuel => pointAnchoredExpandChain fuel plan hop)
      result ↔ ∃ last, Relation.ReflTransGen
        (fun a b => chainRound plan hop.expand.readScope a = .next b) ⟨hop, []⟩ last ∧
        chainRound plan hop.expand.readScope last = .done (.ok result) :=
    fun result => exists_loop_eq_some_iff
  simp only [hwalk]
  constructor
  · rintro ⟨result, last, hreach, hdone⟩
    refine ⟨last.current, ?_, chainRound_eq_done_ok_iff.mp ⟨result, hdone⟩⟩
    exact hreach.lift Walk.current fun a b h => (chainRound_eq_next_iff.mp h).1
  · rintro ⟨last, hreach, hanchors⟩
    obtain ⟨walk, rfl, hwalks⟩ := exists_walk_of_follows hreach
    obtain ⟨result, hdone⟩ := chainRound_eq_done_ok_iff.mpr hanchors
    exact ⟨result, walk, hwalks, hdone⟩

/-! ### The passes over the plan -/

/-- The first pass accepts the hop: it is anchored, and no expression of the plan
uses the variables at its ends. -/
def Traversable (plan : LogicalPlan) (hop : Hop) : Prop :=
  Anchored plan hop ∧ planUsesColumn hop.expand.source plan = false ∧
    planUsesColumn hop.expand.destination plan = false

theorem anchoredExpandInput_of_hop (hhop : hop? node = some hop) (fuel : ℕ) :
    anchoredExpandInput fuel plan node =
      pointAnchoredExpandChain fuel plan hop >>= fun _ =>
        if planUsesColumn hop.expand.source plan || planUsesColumn hop.expand.destination plan then
          ExceptT.mk (some (.error (.unsupportedNode node.id
            "point-anchored Expand does not materialize source or destination variables")))
        else ExceptT.mk (some (.ok (some hop.expand.input))) := by
  unfold anchoredExpandInput
  rw [hhop]
  dsimp only
  split_ifs
  · rfl
  · rfl

theorem anchoredExpandInput_of_not_hop (hhop : hop? node = none) (fuel : ℕ) :
    anchoredExpandInput fuel plan node = ExceptT.mk (some (.ok none)) := by
  unfold anchoredExpandInput
  rw [hhop]
  rfl

theorem steady_columns (node : LogicalNode) (hop : Hop) :
    Rounds.Steady (fun _ =>
      if planUsesColumn hop.expand.source plan || planUsesColumn hop.expand.destination plan then
        ExceptT.mk (some (.error (PlanError.unsupportedNode node.id
          "point-anchored Expand does not materialize source or destination variables")))
      else ExceptT.mk (some (.ok (some hop.expand.input)))) := by
  split_ifs
  · exact steady_const _
  · exact steady_const _

theorem steady_anchoredExpandInput (node : LogicalNode) :
    Rounds.Steady (fun fuel => anchoredExpandInput fuel plan node) := by
  cases hhop : hop? node with
  | none =>
    simp only [anchoredExpandInput_of_not_hop hhop]
    exact steady_const _
  | some hop =>
    simp only [anchoredExpandInput_of_hop hhop]
    exact (steady_chain hop).bind fun _ => steady_columns node hop

theorem anchoredExpandInput_returns_iff (hnode : node ∈ plan.nodes) :
    Rounds.Returns (fun fuel => anchoredExpandInput fuel plan node) ↔
      ∀ hop, hop? node = some hop → ¬ Circular plan hop := by
  cases hhop : hop? node with
  | none =>
    simp only [anchoredExpandInput_of_not_hop hhop, reduceCtorEq, false_implies, implies_true,
      iff_true]
    exact returns_const _
  | some hop =>
    simp only [anchoredExpandInput_of_hop hhop, Option.some.injEq, forall_eq']
    rw [returns_bind_iff (steady_chain hop) fun _ => steady_columns node hop,
      chain_returns_iff (mem_hops_of_mem hnode hhop)]
    refine and_iff_left fun _ _ => ?_
    split_ifs
    · exact returns_const _
    · exact returns_const _

theorem anchoredExpandInput_returnsOk_iff :
    (∃ input, Rounds.ReturnsOk (fun fuel => anchoredExpandInput fuel plan node) input) ↔
      ∀ hop, hop? node = some hop → Traversable plan hop := by
  cases hhop : hop? node with
  | none =>
    simp only [anchoredExpandInput_of_not_hop hhop, reduceCtorEq, false_implies, implies_true,
      iff_true]
    exact ⟨none, 0, rfl⟩
  | some hop =>
    simp only [anchoredExpandInput_of_hop hhop, Option.some.injEq, forall_eq']
    simp only [returnsOk_bind_iff (steady_chain hop) fun _ => steady_columns node hop]
    unfold Traversable
    rw [← chain_returnsOk_iff, ← Bool.or_eq_false_iff]
    constructor
    · rintro ⟨input, result, hresult, fuel, hcolumns⟩
      refine ⟨⟨result, hresult⟩, ?_⟩
      by_contra huses
      rw [if_pos (Bool.eq_true_of_not_eq_false huses)] at hcolumns
      cases hcolumns
    · rintro ⟨⟨result, hresult⟩, huses⟩
      refine ⟨some hop.expand.input, result, hresult, 0, ?_⟩
      rw [if_neg (by rw [huses]; exact Bool.false_ne_true)]
      rfl

/-- A walk that the first pass has seen returns in the second one as well. -/
theorem collectRead_returns [Blake3] (context : PlanningContext) (inputs : List LogicalNodeId)
    (hok : ∀ hop, hop? node = some hop → Traversable plan hop) :
    Rounds.Returns (fun fuel => collectRead fuel plan context inputs node) := by
  unfold collectRead
  cases hhop : hop? node with
  | none => exact returns_const _
  | some hop =>
    by_cases hinput : node.id ∈ inputs
    · simp only [if_pos hinput]
      exact returns_const (.ok none)
    · simp only [if_neg hinput]
      refine (returns_bind_iff (steady_chain hop) fun _ =>
        (steady_const _).bind fun _ => steady_const (.ok _)).mpr
          ⟨?_, fun result _ => ?_⟩
      · obtain ⟨result, hresult⟩ := (chain_returnsOk_iff hop).mpr (hok hop hhop).1
        exact hresult.returns
      · exact (returns_bind_iff (steady_const _)
          fun _ => steady_const (.ok _)).mpr
            ⟨returns_const _, fun _ _ => returns_const (.ok _)⟩

theorem steady_visits (plan : LogicalPlan) :
    Rounds.Steady (fun fuel => plan.nodes.mapM (anchoredExpandInput fuel plan)) :=
  Rounds.Steady.mapM steady_anchoredExpandInput plan.nodes

theorem steady_inputs (plan : LogicalPlan) :
    Rounds.Steady (fun fuel => pointAnchoredExpandInputs fuel plan) :=
  (steady_visits plan).bind fun _ =>
    (steady_const _).bind fun _ => steady_const (.ok _)

/-- No walk comes back to a node, among the walks that planning starts: all
`Expand` nodes listed before have passed. -/
def WalksEnd (plan : LogicalPlan) : Prop :=
  ∀ before node after hop, plan.nodes = before ++ node :: after →
    (∀ earlier ∈ before, ∀ passed, LogicalNode.hop? earlier = some passed →
      Traversable plan passed) →
    LogicalNode.hop? node = some hop → ¬ Circular plan hop

theorem inputs_returns_iff (plan : LogicalPlan) :
    Rounds.Returns (fun fuel => pointAnchoredExpandInputs fuel plan) ↔ WalksEnd plan := by
  have hrest : ∀ inputs : List (Option LogicalNodeId), Rounds.Steady (fun _ : ℕ => (do
      ExceptT.mk (some (plan.nodes.foldlM
        (fun _ node => checkIntermediate plan (inputs.filterMap id) node) ()))
      pure (inputs.filterMap id) : ExceptT PlanError Option (List LogicalNodeId))) :=
    fun _ => (steady_const _).bind fun _ => steady_const (.ok _)
  have hfirst := returns_bind_iff (steady_visits plan) hrest
  refine (hfirst.trans (and_iff_left fun inputs _ => ?_)).trans ?_
  · exact (returns_bind_iff (steady_const _)
      fun _ => steady_const (.ok _)).mpr
        ⟨returns_const _, fun _ _ => returns_const (.ok _)⟩
  · rw [returns_mapM_iff steady_anchoredExpandInput]
    constructor
    · intro h before node after hop hsplit hbefore
      have hnode : node ∈ plan.nodes := by
        rw [hsplit]
        exact List.mem_append_right _ List.mem_cons_self
      exact (anchoredExpandInput_returns_iff hnode).mp (h before node after hsplit
        fun earlier hearlier => anchoredExpandInput_returnsOk_iff.mpr (hbefore earlier hearlier))
        hop
    · intro h before node after hsplit hbefore
      have hnode : node ∈ plan.nodes := by
        rw [hsplit]
        exact List.mem_append_right _ List.mem_cons_self
      exact (anchoredExpandInput_returns_iff hnode).mpr fun hop => h before node after hop hsplit
        fun earlier hearlier => anchoredExpandInput_returnsOk_iff.mp (hbefore earlier hearlier)

/-- Past the first pass every hop is traversable. -/
theorem traversable_of_inputs {inputs : List LogicalNodeId}
    (h : Rounds.ReturnsOk (fun fuel => pointAnchoredExpandInputs fuel plan) inputs)
    (hnode : node ∈ plan.nodes)
    (hhop : hop? node = some hop) : Traversable plan hop := by
  obtain ⟨visited, hvisited, _⟩ := (returnsOk_bind_iff (steady_visits plan)
    (fun _ => (steady_const _).bind fun _ => steady_const (.ok _)) inputs).mp h
  have hall := (exists_returnsOk_mapM_iff steady_anchoredExpandInput plan.nodes).mp
    ⟨visited, hvisited⟩
  exact anchoredExpandInput_returnsOk_iff.mp (hall node hnode) hop hhop

theorem steady_collectRead [Blake3] (context : PlanningContext) (inputs : List LogicalNodeId)
    (node : LogicalNode) :
    Rounds.Steady (fun fuel => collectRead fuel plan context inputs node) := by
  unfold collectRead
  cases hhop : hop? node with
  | none => exact steady_const _
  | some hop =>
    split_ifs
    · exact steady_const (.ok none)
    · exact (steady_chain hop).bind fun _ =>
        (steady_const _).bind fun _ => steady_const (.ok _)

theorem steady_reads [Blake3] (context : PlanningContext) (inputs : List LogicalNodeId) :
    Rounds.Steady (fun fuel => (do
      let reads ← plan.nodes.mapM (collectRead fuel plan context inputs)
      pure (reads.filterMap id) : ExceptT PlanError Option (List LogicalReadRequest))) :=
  (Rounds.Steady.mapM (steady_collectRead context inputs) plan.nodes).bind fun _ =>
    steady_const (.ok _)

/-- Collecting the reads returns when its first pass does. -/
theorem collectReads_returns_iff [Blake3] (context : PlanningContext) :
    Rounds.Returns (fun fuel => collectReads fuel plan context) ↔
      Rounds.Returns (fun fuel => pointAnchoredExpandInputs fuel plan) := by
  refine (returns_bind_iff (steady_inputs plan) (steady_reads context)).trans
    (and_iff_left fun inputs hinputs => ?_)
  refine (returns_bind_iff (Rounds.Steady.mapM (steady_collectRead context inputs) plan.nodes)
    fun _ => steady_const (.ok _)).mpr ⟨?_, fun _ _ => returns_const (.ok _)⟩
  refine (returns_mapM_iff (steady_collectRead context inputs) plan.nodes).mpr ?_
  intro before node after hsplit _
  have hnode : node ∈ plan.nodes := by
    rw [hsplit]
    exact List.mem_append_right _ List.mem_cons_self
  exact collectRead_returns context inputs fun hop hhop =>
    traversable_of_inputs hinputs hnode hhop

end Passes

/-! ### Planning -/

/-- For a validated program, planning returns exactly when the program is not a
query over the graph of the catalog with a circular walk. -/
theorem plan_returns_iff [Blake3] (program : LogicalProgram) (context : PlanningContext)
    (hvalid : validateProgram program = .ok ()) :
    (∃ fuel outcome, (plan fuel program context).run = some outcome) ↔
      ∀ logicalPlan, program.statement = .query logicalPlan →
        graphMatches program context = true → WalksEnd logicalPlan := by
  have hreads : ∀ logicalPlan : LogicalPlan,
      Rounds.Steady (fun fuel => collectReads fuel logicalPlan context) :=
    fun logicalPlan => (steady_inputs logicalPlan).bind (steady_reads context)
  by_cases hgraph : graphMatches program context = true
  · have hinputs : validateInputs program context = .ok () := by
      unfold validateInputs
      rw [hvalid]
      exact if_pos hgraph
    cases hstatement : program.statement with
    | query logicalPlan =>
      have hplan : ∀ fuel, plan fuel program context =
          collectReads fuel logicalPlan context >>= fun reads =>
            ExceptT.mk (some (lowerReads program logicalPlan context reads)) := by
        intro fuel
        unfold plan
        rw [hinputs, hstatement]
        rfl
      simp only [LogicalStatement.query.injEq, forall_eq', hgraph, true_implies, hplan]
      rw [← inputs_returns_iff, ← collectReads_returns_iff context]
      exact (Rounds.returns_bind_iff (hreads logicalPlan) fun _ => Rounds.steady_const _).trans
        (and_iff_left fun _ _ => Rounds.returns_const _)
    | _ =>
      refine iff_of_true ⟨0, .error .unsupportedStatement, ?_⟩ (by simp)
      unfold plan
      rw [hinputs, hstatement]
      rfl
  · refine iff_of_true ⟨0, .error .graphMismatch, ?_⟩ fun _ _ h => absurd h hgraph
    have hinputs : validateInputs program context = .error .graphMismatch := by
      unfold validateInputs
      rw [hvalid]
      exact if_neg hgraph
    unfold plan
    rw [hinputs]
    rfl

/-! ### An `Expand` that reads from itself -/

def sampleCapabilities : CapabilityManifest := .empty

def sampleShard : CatalogShard where
  binding := {
    clusterId := 1
    graphId := 7
    shardId := 11
    placementEpoch := 13
    replicaId := 17
    backendGeneration := 1
    backendClassDigest := Digest32.zero
    providerKind := .fjall
    contractVersion := 1
    layoutVersion := 1
    capabilityDigest := @CapabilityManifest.digest foldHash sampleCapabilities
    namespaceId := "replica"
    endpointProfileRef := "local"
    credentialRef := "local"
    role := .active }
  appliedIndex := 0

def sampleContext : @PlanningContext foldHash :=
  letI := foldHash
  { catalog := {
      version := 1
      schemaVersion := 1
      graphId := sampleShard.binding.graphId
      backendProvider := .fjall
      shards := [sampleShard]
      versions_ne_zero := by decide
      shards_ne_nil := by simp
      conforms := by simp [sampleShard]
      ordered := by simp }
    capabilities := sampleCapabilities
    snapshotRequirements := ⟨0, 0, true⟩
    logicalScanBound := some 10
    bound_ne_zero := by decide
    digests := by simp [sampleShard] }

/-- A query program without parameters. -/
def queryProgram (plan : LogicalPlan) : LogicalProgram :=
  ⟨IrVersion.current, .sessionDefault, [], .query plan, RowSchema.empty⟩

/-- A hop from `source` to `b` along the node numbered `input`. -/
def sampleHop (id input : LogicalNodeId) (source : String) : Hop :=
  ⟨id, ⟨input, source, "r", "b", [], .outgoing, [], ReadScope.current⟩⟩

def Hop.node (hop : Hop) : LogicalNode := ⟨hop.id, .expand hop.expand⟩

/-- One hop behind the lookup of vertex 5. -/
def anchoredPlan : LogicalPlan where
  root := 2
  nodes := [⟨1, .vertexLookup ⟨"a", .literal (.integer 5), [], ReadScope.current⟩⟩,
    (sampleHop 2 1 "a").node]

theorem plan_returns_iff_anchoredPlan :
    validateProgram (queryProgram anchoredPlan) = .ok () ∧ WalksEnd anchoredPlan := by
  have hvalid : validateProgram (queryProgram anchoredPlan) = .ok () := by decide +kernel
  refine ⟨hvalid, ?_⟩
  have hreturns : ((@plan foldHash 1 (queryProgram anchoredPlan) sampleContext).run).isSome := by
    decide +kernel
  obtain ⟨outcome, houtcome⟩ := Option.isSome_iff_exists.mp hreturns
  exact (@plan_returns_iff foldHash _ sampleContext hvalid).mp ⟨1, outcome, houtcome⟩ anchoredPlan
    rfl rfl

def selfHop : Hop := sampleHop 1 1 "b"

def selfPlan : LogicalPlan := ⟨1, [selfHop.node]⟩

theorem circular_selfHop : Circular selfPlan selfHop := by
  have hfollows : Follows selfPlan ReadScope.current selfHop selfHop :=
    ⟨⟨rfl, rfl, rfl⟩, ⟨selfHop.node, rfl, rfl⟩, rfl⟩
  exact ⟨selfHop, .refl, .single hfollows⟩

/-- The program is valid and planning it never returns. -/
theorem self_expand_never_planned :
    validateProgram (queryProgram selfPlan) = .ok () ∧
      ∀ fuel, (@plan foldHash fuel (queryProgram selfPlan) sampleContext).run = none := by
  refine ⟨by decide +kernel, fun fuel => ?_⟩
  have hhop : LogicalNode.hop? selfHop.node = some selfHop := rfl
  have hvisit : anchoredExpandInput fuel selfPlan selfHop.node = ExceptT.mk none := by
    rw [anchoredExpandInput_of_hop hhop, chain_eq_none circular_selfHop]
    rfl
  have hinputs : pointAnchoredExpandInputs fuel selfPlan = ExceptT.mk none := by
    change ([selfHop.node].mapM (anchoredExpandInput fuel selfPlan) >>= _) = _
    rw [List.mapM_cons, hvisit]
    rfl
  let _ := foldHash
  have hreads : collectReads fuel selfPlan sampleContext = ExceptT.mk none := by
    unfold collectReads
    rw [hinputs]
    rfl
  change (collectReads fuel selfPlan sampleContext >>= _).run = none
  rw [hreads]
  rfl

end DtgProxy.Plan

import DtgProxy.Query.Runtime
import DtgProxy.Query.SourceResults

/-! # Executions with an overlay

The overlay operator asks for a column of the vertex type.  Every source of a plan is
projected to a column of any type, and no other operator gives a column the vertex type,
so the operator refuses the result of every plan.
-/
namespace DtgProxy.Query

open Kernel DtgProxy.Language Storage Lib Result

/-- No column is of the vertex type. -/
def Untyped (schema : RowSchema) : Prop :=
  ∀ field ∈ schema.fields, field.dataType ≠ .vertex

namespace Operator

variable {input : Operator}

theorem project_untyped {projections : List ProjectionExpr}
    (h : ∀ projection ∈ projections, projection.field.dataType = .any) :
    Untyped (input.project projections).schema := by
  intro field hfield
  obtain ⟨projection, hprojection, rfl⟩ := List.mem_map.mp hfield
  simp [h projection hprojection]

theorem countBy_untyped (h : Untyped input.schema) (column : ℕ)
    (name : String) : Untyped (input.countBy column name).schema := by
  intro field hfield
  rcases List.mem_pair.mp hfield with rfl | rfl
  · cases hgroup : input.schema.fields[column]? with
    | none => simp
    | some group => exact h group (List.mem_of_getElem? hgroup)
  · simp [countField]

theorem unwind_untyped {operator : Operator} {expression : LogicalExpr} {name : String} {size : ℕ}
    (h : Untyped input.schema) (hbuilt : input.unwind expression name size = .ok operator) :
    Untyped operator.schema := by
  unfold unwind at hbuilt
  split_ifs at hbuilt
  cases hbuilt
  exact List.forall_mem_append.mpr ⟨h, by simp⟩

/-- The overlay returns no rows of a column of another type. -/
theorem collectRows_overlay_ne_ok (h : Untyped input.schema) (overlay : QueryOverlay)
    (validAt : Int64) (rows : List Row) :
    (input.overlay overlay validAt).pulls.collectRows ≠ .ok rows := by
  unfold Operator.overlay
  cases hinput : input.pulls.collectRows with
  | error => simp [Pulls.ofResult, Pulls.failed, Pulls.collectRows, Bind.bind, Except.bind]
  | ok found =>
    dsimp only [Bind.bind, Except.bind]
    split
    · rename_i name nullable hfields
      exact absurd rfl (h ⟨name, .vertex, nullable⟩ (by simp [hfields]))
    · simp [Pulls.ofResult, Pulls.failed, Pulls.collectRows]

end Operator

/-! ## What the runtime builds -/

section Build

variable {batchSize : UInt32} {storage : FragmentStorage}
variable {operator : Operator} {output : String}

theorem fragmentSource_untyped {logicalNode id : UInt32}
    (h : fragmentSource batchSize storage logicalNode output id = .ok operator) :
    Untyped operator.schema := by
  unfold fragmentSource at h
  split at h
  · cases h
  split at h
  · cases h
  obtain ⟨source, -, h⟩ := bind_eq_ok.mp h
  split at h
  · cases h
  cases h
  exact Operator.project_untyped (by simp)

theorem buildSource_untyped {logicalNode : UInt32} {fragments : List UInt32}
    (h : buildSource batchSize storage logicalNode fragments output = .ok operator) :
    Untyped operator.schema := by
  unfold buildSource at h
  split_ifs at h
  obtain ⟨_, -, h⟩ := bind_eq_ok.mp h
  obtain ⟨sources, hsources, h⟩ := bind_eq_ok.mp h
  cases fragments with
  | nil =>
    cases hsources
    cases h
  | cons =>
    rw [List.mapM_cons] at hsources
    obtain ⟨source, hsource, hsources⟩ := bind_eq_ok.mp hsources
    obtain ⟨others, -, hsources⟩ := bind_eq_ok.mp hsources
    cases hsources
    -- A merge has the schema of its first input.
    have hfirst := fragmentSource_untyped hsource
    cases others <;> cases h <;> exact hfirst

variable {input : Operator}

theorem lowerProjections_any {projections : List ExecutableProjection}
    {lowered : List ProjectionExpr} (h : lowerProjections input projections = .ok lowered) :
    ∀ projection ∈ lowered, projection.field.dataType = .any := by
  unfold lowerProjections at h
  split_ifs at h
  refine foldlM_invariant (fun lowered => ∀ projection ∈ lowered,
    projection.field.dataType = .any) (fun lowered projection lowered' hall hstep => ?_)
    projections (by simp) h
  split_ifs at hstep
  obtain ⟨_, -, hstep⟩ := bind_eq_ok.mp hstep
  cases hstep
  exact List.forall_mem_append.mpr ⟨hall, List.forall_mem_singleton.mpr rfl⟩

theorem buildAggregate_untyped {groups : List ExecutableProjection}
    {aggregates : List ExecutableAggregate}
    (h : buildAggregate input groups aggregates = .ok operator) :
    Untyped operator.schema := by
  unfold buildAggregate at h
  split at h
  · split_ifs at h
    split at h
    · cases h
      simp [Untyped, Operator.countAll, Operator.countField]
    · obtain ⟨_, -, h⟩ := bind_eq_ok.mp h
      cases h
      exact Operator.countBy_untyped (Operator.project_untyped (by simp)) 0 _
    · cases h
  · cases h

theorem buildSort_schema {keys : List ExecutableSortKey} (h : buildSort input keys = .ok operator) :
    operator.schema = input.schema := by
  unfold buildSort at h
  split at h
  · obtain ⟨column, -, h⟩ := bind_eq_ok.mp h
    cases h
    rfl
  · cases h
  · cases h

theorem buildKind_untyped
    {build : UInt32 → List UInt32 → Except QueryError (Operator × List UInt32)}
    (hbuild : ∀ {id built built' operator}, build id built = .ok (operator, built') →
      Untyped operator.schema)
    {kind : ExecutableOperatorKind} {built built' : List UInt32}
    (h : buildKind batchSize storage build built kind = .ok (operator, built')) :
    Untyped operator.schema := by
  cases kind with
  | source =>
    obtain ⟨source, hsource, h⟩ := bind_eq_ok.mp h
    cases h
    exact buildSource_untyped hsource
  | filter input =>
    obtain ⟨⟨input, _⟩, hinput, h⟩ := bind_eq_ok.mp h
    obtain ⟨_, -, h⟩ := bind_eq_ok.mp h
    have huntyped := hbuild hinput
    cases h
    exact huntyped
  | project input =>
    obtain ⟨⟨input, _⟩, -, h⟩ := bind_eq_ok.mp h
    obtain ⟨lowered, hlowered, h⟩ := bind_eq_ok.mp h
    cases h
    exact Operator.project_untyped (lowerProjections_any hlowered)
  | join left right kind predicate =>
    rw [buildKind] at h
    split_ifs at h
    obtain ⟨⟨left, _⟩, hleft, h⟩ := bind_eq_ok.mp h
    obtain ⟨⟨right, _⟩, hright, h⟩ := bind_eq_ok.mp h
    cases predicate with
    | none => cases h
    | some =>
      obtain ⟨keys, -, h⟩ := bind_eq_ok.mp h
      cases h
      intro field hfield
      rcases List.mem_append.mp hfield with hfield | hfield
      · exact hbuild hleft field hfield
      · exact hbuild hright field hfield
  | aggregate input =>
    obtain ⟨⟨input, _⟩, -, h⟩ := bind_eq_ok.mp h
    obtain ⟨aggregated, haggregated, h⟩ := bind_eq_ok.mp h
    cases h
    exact buildAggregate_untyped haggregated
  | sort input =>
    obtain ⟨⟨input, _⟩, hinput, h⟩ := bind_eq_ok.mp h
    obtain ⟨sorted, hsorted, h⟩ := bind_eq_ok.mp h
    cases h
    rw [buildSort_schema hsorted]
    exact hbuild hinput
  | limit input =>
    obtain ⟨⟨input, _⟩, hinput, h⟩ := bind_eq_ok.mp h
    have huntyped := hbuild hinput
    cases h
    exact huntyped
  | unwind input =>
    obtain ⟨⟨input, _⟩, hinput, h⟩ := bind_eq_ok.mp h
    obtain ⟨_, -, h⟩ := bind_eq_ok.mp h
    obtain ⟨unwound, hunwound, h⟩ := bind_eq_ok.mp h
    cases h
    exact Operator.unwind_untyped (hbuild hinput) hunwound

/-- No operator of a plan has a column of the vertex type. -/
theorem buildOperator_untyped {definitions : List (UInt32 × ExecutableOperatorKind)} {unvisited : ℕ}
    {id : UInt32} {visiting built built' : List UInt32}
    (h : buildOperator batchSize storage definitions unvisited id visiting built =
      .ok (operator, built')) : Untyped operator.schema := by
  induction unvisited generalizing id visiting built built' operator with
  | zero =>
    unfold buildOperator at h
    split_ifs at h
    split at h <;> simp_all
  | succ unvisited ih =>
    unfold buildOperator at h
    split_ifs at h
    cases hkind : definitions.lookup id with
    | none => simp [hkind] at h
    | some =>
      rw [hkind] at h
      obtain ⟨⟨found, built''⟩, hfound, h⟩ := bind_eq_ok.mp h
      cases h
      exact buildKind_untyped (fun hinput => ih hinput) hfound

end Build

/-! ## Executions -/

namespace Execution

variable (execution : Execution)

theorem root_untyped {batchSize : UInt32} {root : Operator}
    (h : execution.root batchSize = .ok root) : Untyped root.schema := by
  obtain ⟨storage, -, h⟩ := bind_eq_ok.mp h
  obtain ⟨⟨operator, built⟩, hbuilt, h⟩ := bind_eq_ok.mp h
  dsimp only at h
  split_ifs at h
  cases h
  exact buildOperator_untyped hbuilt

theorem collect_overlay_ne_ok (batchSize : UInt32) (overlay : QueryOverlay) (rows : List Row) :
    execution.collect batchSize (some overlay) ≠ .ok rows := by
  intro h
  obtain ⟨operator, hoperator, hrows⟩ := bind_eq_ok.mp h
  unfold execute at hoperator
  split_ifs at hoperator
  obtain ⟨root, hroot, hoperator⟩ := bind_eq_ok.mp hoperator
  cases hoperator
  exact Operator.collectRows_overlay_ne_ok (execution.root_untyped hroot) _ _ rows hrows

/-- What is executed once the staged changes are committed; without an overlay nothing is
staged. -/
def committed (commit : QueryOverlay → Execution) : Option QueryOverlay → Execution
  | none => execution
  | some overlay => commit overlay

/-- Whatever committing an overlay makes of the storage, the fences and the plan, the rows
found after the commit are those of the execution with the overlay only when there is no
overlay. -/
theorem reads_own_writes_iff (commit : QueryOverlay → Execution) (batchSize : UInt32)
    (overlay : Option QueryOverlay) {rows : List Row}
    (hcommitted : (execution.committed commit overlay).collect batchSize none = .ok rows) :
    execution.collect batchSize overlay = .ok rows ↔ overlay = none := by
  cases overlay with
  | none => exact ⟨fun _ => rfl, fun _ => hcommitted⟩
  | some overlay =>
    constructor
    · intro hrows
      exact absurd hrows (execution.collect_overlay_ne_ok batchSize overlay rows)
    · intro hnone
      cases hnone

end Execution

/-! ### A scan of one vertex and a staged one -/

namespace Sample

def stagedVertex : VertexVersion := .plain 6 .decade 20

/-- A store after one batch for each vertex. -/
def vertexStore (vertices : List VertexVersion) : FjallStore :=
  letI := foldHash
  applyCalls FjallStore.applyBatches
    (vertices.mapIdx fun index vertex =>
      [sampleBatch index (.putVertex vertex)])
    (FjallStore.create (sampleBinding .fjall))

def vertexFence (appliedIndex : ℕ) : ExecutionFence :=
  ⟨⟨sampleBinding .fjall, appliedIndex, (sampleBinding .fjall).capabilityDigest⟩, 1, 1,
    20, 0, sampleExecution.versioned, rfl⟩

/-- All vertices of a store, by a plan of a single source. -/
def scan (vertices : List VertexVersion) : Execution where
  plan :=
    { fragment := ⟨1, vertexFence vertices.length,
        [.logical ⟨.vertexScan, 10, 20, 0, sampleAdjacency.bounded⟩], [1]⟩
      fragments := []
      rootOperator := 1
      operators := [⟨1, .source 1 [1] "vertex"⟩]
      resultSchema := RowSchema.empty
      unique := by simp
      ordered := by simp
      rooted := by simp }
  storage _ := some ⟨(fjallView (vertexFence vertices.length).readFence
    (vertexStore vertices).load).toTemporalReadView, fun _ _ _ _ => ⟨[], none⟩⟩
  snapshot := ⟨20, 1, fun _ =>
    some ⟨(sampleBinding .fjall).placementEpoch, (sampleBinding .fjall).backendGeneration,
      vertices.length⟩⟩

/-- The scan with the staged vertex is refused; once the vertex is committed, the scan
returns both. -/
theorem staged_scan_refused :
    (scan [sampleVertex]).collect 8 (some ⟨[.putVertex stagedVertex]⟩) =
        .error (.unsupported "overlay currently requires a single vertex column") ∧
      (scan [sampleVertex, stagedVertex]).collect 8 none =
        .ok [[.vertex sampleVertex], [.vertex stagedVertex]] := by
  decide +kernel

theorem staged_scan_reads_own_writes :
    (scan [sampleVertex]).collect 8 (some ⟨[.putVertex stagedVertex]⟩) =
        .ok [[.vertex sampleVertex], [.vertex stagedVertex]] ↔
      some (⟨[.putVertex stagedVertex]⟩ : QueryOverlay) = none :=
  (scan [sampleVertex]).reads_own_writes_iff (fun _ => scan [sampleVertex, stagedVertex]) 8 _
    (by decide +kernel)

end Sample

end DtgProxy.Query

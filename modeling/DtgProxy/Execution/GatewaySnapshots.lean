import DtgProxy.Execution.Gateway
import DtgProxy.Plan.Termination

/-! # The snapshots a Gateway plans with

Writes and catalog updates change the planning context in any order.  A write takes the
greater of both snapshots.  An update is compared with the current context in its catalog
version, its graph and the epochs and generations of its shards, and takes the snapshot it
brings along.
-/
namespace DtgProxy.Execution

open Kernel Storage Lib Plan

section

variable [Blake3]
variable {context : PlanningContext}
variable {next : PlanningContext}

/-- A call that may change the planning context. -/
inductive GatewayCall where
  | create (outcome : ProcessWriteOutcome)
  | install (next : PlanningContext)

def GatewayCall.perform (context : PlanningContext) :
    GatewayCall → Except GatewayExecutionError PlanningContext
  | .create outcome => advanceProcessSnapshot context outcome !outcome.replayed
  | .install next => do
    let installed ← installPlanningContext context next
    .ok installed.2

/-- The context after a call, which stays as it was when the call fails. -/
def GatewayCall.step (context : PlanningContext) (call : GatewayCall) : PlanningContext :=
  match call.perform context with
  | .ok next => next
  | .error _ => context

def runCalls (context : PlanningContext) (calls : List GatewayCall) : PlanningContext :=
  calls.foldl GatewayCall.step context

open GatewayCall

theorem runCalls_concat (context : PlanningContext) (calls : List GatewayCall)
    (call : GatewayCall) :
    runCalls context (calls ++ [call]) = step (runCalls context calls) call := by
  simp [runCalls, List.foldl_append]

/-- The later context reads no earlier than the first one, on each of its shards. -/
structure SnapshotLe (first later : PlanningContext) : Prop where
  transactionTime :
    first.snapshotRequirements.transactionTime ≤ later.snapshotRequirements.transactionTime
  appliedIndex : ∀ shard ∈ first.catalog.shards, ∃ shard' ∈ later.catalog.shards,
    shard'.binding.shardId = shard.binding.shardId ∧ shard.appliedIndex ≤ shard'.appliedIndex

theorem SnapshotLe.refl (context : PlanningContext) : SnapshotLe context context :=
  ⟨le_rfl, fun shard hshard => ⟨shard, hshard, rfl, le_rfl⟩⟩

theorem SnapshotLe.trans {first middle later : PlanningContext} (h : SnapshotLe first middle)
    (h' : SnapshotLe middle later) : SnapshotLe first later := by
  refine ⟨h.transactionTime.trans h'.transactionTime, fun shard hshard => ?_⟩
  obtain ⟨shard', hshard', hid, hle⟩ := h.appliedIndex shard hshard
  obtain ⟨shard'', hshard'', hid', hle'⟩ := h'.appliedIndex shard' hshard'
  exact ⟨shard'', hshard'', hid'.trans hid, hle.trans hle'⟩

variable {outcome : ProcessWriteOutcome}

theorem snapshotLe_of_advanced {current : PlanningContext} {incrementBound : Bool}
    {shard : CatalogShard} (hshards : current.catalog.shards = [shard])
    (h : Advanced current outcome incrementBound shard next) : SnapshotLe current next := by
  refine ⟨h.transactionTime ▸ le_max_left _ _, ?_⟩
  rw [hshards, h.shards]
  intro other hother
  rw [List.mem_singleton.mp hother]
  exact ⟨_, List.mem_singleton_self _, rfl, le_max_left _ _⟩

/-- A catalog update that is accepted brings a snapshot that is no older. -/
def GatewayCall.KeepsSnapshot (context : PlanningContext) : GatewayCall → Prop
  | .create _ => True
  | .install next =>
    validatePlanningContextUpdate context next = .ok () → SnapshotLe context next

theorem step_install (h : validatePlanningContextUpdate context next = .ok ()) :
    step context (.install next) = next := by
  obtain ⟨changed, hinstall⟩ := installPlanningContext_eq h
  simp only [step, perform, hinstall]
  rfl

theorem snapshotLe_step_iff {call : GatewayCall} :
    SnapshotLe context (call.step context) ↔ call.KeepsSnapshot context := by
  cases call with
  | create =>
    refine iff_of_true ?_ trivial
    unfold step
    split
    · next next h =>
      obtain ⟨shard, hshards, -, hadvanced⟩ := advanceProcessSnapshot_eq_ok h
      exact snapshotLe_of_advanced hshards hadvanced
    · exact SnapshotLe.refl context
  | install next =>
    constructor
    · intro h hvalid
      rwa [step_install hvalid] at h
    · intro h
      by_cases hvalid : validatePlanningContextUpdate context next = .ok ()
      · rw [step_install hvalid]
        exact h hvalid
      · have hfails : ∀ result, (install next).perform context ≠ .ok result := by
          intro result hresult
          obtain ⟨⟨changed, installed⟩, hinstall, -⟩ := Result.bind_eq_ok.mp hresult
          exact hvalid (installPlanningContext_eq_ok hinstall).1
        unfold step
        split
        · next result h => exact absurd h (hfails result)
        · exact SnapshotLe.refl context

/-- A write that is acknowledged is in the snapshot of the context after it. -/
theorem commitTime_le_step (h : perform context (.create outcome) = .ok next) :
    outcome.commitTime ≤
      (step context (.create outcome)).snapshotRequirements.transactionTime := by
  obtain ⟨shard, -, -, hadvanced⟩ := advanceProcessSnapshot_eq_ok h
  simp only [step, h, hadvanced.transactionTime]
  exact le_max_right _ _

/-! ## Runs -/

/-- Of two contexts in a run, the later one reads no earlier. -/
def SnapshotsAdvance (context : PlanningContext) (calls : List GatewayCall) : Prop :=
  ∀ before between after, calls = before ++ between ++ after →
    SnapshotLe (runCalls context before) (runCalls context (before ++ between))

/-- All contexts after an acknowledged write read at its commit time or later. -/
def WritesStayVisible (context : PlanningContext) (calls : List GatewayCall) : Prop :=
  ∀ before outcome between after, calls = before ++ .create outcome :: between ++ after →
    (∃ next, GatewayCall.perform (runCalls context before) (.create outcome) = .ok next) →
    outcome.commitTime ≤ (runCalls context
      (before ++ .create outcome :: between)).snapshotRequirements.transactionTime

variable {calls : List GatewayCall}

theorem snapshotsAdvance_of_keeps (h : ∀ before call after, calls = before ++ call :: after →
      call.KeepsSnapshot (runCalls context before)) : SnapshotsAdvance context calls := by
  intro before between
  -- the calls in between are performed one after the other
  induction between using List.reverseRecOn with
  | nil => exact fun after _ => by simpa using SnapshotLe.refl _
  | append_singleton between call ih =>
    intro after hcalls
    have hbefore : calls = (before ++ between) ++ call :: after := by simpa using hcalls
    have hstep := snapshotLe_step_iff.mpr (h _ call after hbefore)
    rw [← List.append_assoc, runCalls_concat]
    exact (ih (call :: after) hbefore).trans hstep

theorem writesStayVisible_of_advance (h : SnapshotsAdvance context calls) :
    WritesStayVisible context calls := by
  rintro before outcome between after hcalls ⟨next, hnext⟩
  have hlater := h (before ++ [.create outcome]) between after (by simpa using hcalls)
  rw [runCalls_concat, List.append_assoc] at hlater
  exact (commitTime_le_step hnext).trans hlater.transactionTime

/-- The snapshots of a Gateway never move backwards in exactly those runs in which each
accepted catalog update brings a snapshot that is no older than the current one. -/
theorem snapshots_advance_iff (context : PlanningContext) (calls : List GatewayCall) :
    (SnapshotsAdvance context calls ∧ WritesStayVisible context calls) ↔
      ∀ before next after, calls = before ++ .install next :: after →
        validatePlanningContextUpdate (runCalls context before) next = .ok () →
          SnapshotLe (runCalls context before) next := by
  constructor
  · rintro ⟨hadvance, -⟩ before next after hcalls hvalid
    have hstep := hadvance before [.install next] after (by simpa using hcalls)
    rwa [runCalls_concat, step_install hvalid] at hstep
  · intro h
    have hadvance : SnapshotsAdvance context calls := by
      refine snapshotsAdvance_of_keeps fun before call after hcalls => ?_
      cases call with
      | create => trivial
      | install next => exact h before next after hcalls
    exact ⟨hadvance, writesStayVisible_of_advance hadvance⟩

end

/-- The write of one vertex, which the shard committed at time 5 and index 3. -/
def sampleOutcome : ProcessWriteOutcome := ⟨sampleShard.binding, 3, 5, false⟩

/-- The next version of the catalog, with a snapshot that was taken at time 4. -/
def olderUpdate : @PlanningContext foldHash :=
  letI := foldHash
  { sampleContext with
    catalog := { sampleContext.catalog with version := 2, versions_ne_zero := by decide }
    snapshotRequirements := ⟨4, 0, true⟩ }

def staleUpdateCalls : List (@GatewayCall foldHash) :=
  [@GatewayCall.create foldHash sampleOutcome, @GatewayCall.install foldHash olderUpdate]

/-- The write is acknowledged and the update accepted.  A query planned then reads at a time
before the commit of the vertex. -/
theorem acknowledged_write_lost_by_update :
    let := foldHash
    (GatewayCall.perform sampleContext (.create sampleOutcome)).isOk = true ∧
      (runCalls sampleContext staleUpdateCalls).snapshotRequirements.transactionTime <
        sampleOutcome.commitTime ∧
      ¬ WritesStayVisible sampleContext staleUpdateCalls := by
  intro inst
  have hwritten : (GatewayCall.perform sampleContext (.create sampleOutcome)).isOk = true := by
    decide +kernel
  have hread : (runCalls sampleContext staleUpdateCalls).snapshotRequirements.transactionTime <
      sampleOutcome.commitTime := by decide +kernel
  refine ⟨hwritten, hread, fun hvisible => ?_⟩
  have hle := hvisible [] sampleOutcome [@GatewayCall.install foldHash olderUpdate] [] rfl
    ⟨_, Result.eq_ok_value _ hwritten⟩
  rw [List.nil_append] at hle
  unfold staleUpdateCalls at hread
  exact hread.not_ge hle

end DtgProxy.Execution

import DtgProxy.Transaction.TimestampAuthority

/-! # Runs of the timestamp authority

A run is a sequence of batches, each with the outcome of its log append.  The
log of a run always reopens to the state in memory, so what an answer records
is durable; answers of a run see the reservations of all earlier ones.
-/
namespace DtgProxy.Transaction

open Kernel Lib TimestampState StagedAnswer

/-- One call of `apply_batch` and what the log append answered. -/
structure BatchCall where
  operations : List TimestampOperation
  append : Except TxnError Unit

namespace StagedAnswer

variable {s : TimestampState} {ops : List TimestampOperation} {answer : StagedAnswer}

theorem finalState_cons (s : TimestampState) (op : TimestampOperation)
    (ops : List TimestampOperation) :
    finalState s (op :: ops) = finalState (after ⟨op, stageOperation s op, s⟩) ops := rfl

theorem map_operation_trace (s : TimestampState) (ops : List TimestampOperation) :
    (trace s ops).map (·.operation) = ops := by
  induction ops generalizing s with
  | nil => rfl
  | cons op ops ih => simp [trace, ih]

theorem finalState_append (s : TimestampState) (first rest : List TimestampOperation) :
    finalState s (first ++ rest) = finalState (finalState s first) rest := by
  induction first generalizing s with
  | nil => rfl
  | cons op first ih =>
    rw [List.cons_append, finalState_cons, finalState_cons, ih]

section Outcome

variable (h : answer.outcome = stageOperation answer.before answer.operation)

include h

theorem after_of_command_none (hc : answer.command = none) : answer.after = answer.before := by
  unfold after
  split
  · rename_i st hst
    rw [hst] at h
    rcases stageOperation_cases h.symm with ⟨-, hstate, -⟩ | ⟨_, hsome, -⟩
    · exact hstate
    · simp [command, hst, hsome] at hc
  · rfl

/-- Answering an operation leads to a later state and keeps the invariant. -/
theorem extends_after :
    answer.before.Extends answer.after ∧ (answer.before.Inv → answer.after.Inv) := by
  unfold after
  split
  · rename_i st hst
    have hissues := stageOperation_issues (hst ▸ h).symm
    exact ⟨hissues.extends, hissues.inv⟩
  · exact ⟨.refl _, fun hi => hi⟩

/-- An accepted operation's answer is recorded in the state it leaves. -/
theorem records_after {t : TransactionTime} (hok : answer.result = .ok t) :
    answer.after.Records answer.operation t := by
  unfold after
  cases hst : answer.outcome with
  | error => simp [result, hst, Except.map] at hok
  | ok st =>
    obtain rfl : st.timestamp = t := by simpa [result, hst, Except.map] using hok
    exact (stageOperation_issues (hst ▸ h).symm).records

end Outcome

theorem extends_finalState (s : TimestampState) (ops : List TimestampOperation) :
    s.Extends (finalState s ops) ∧ (s.Inv → (finalState s ops).Inv) := by
  induction ops generalizing s with
  | nil => exact ⟨.refl s, fun hi => hi⟩
  | cons op ops ih =>
    obtain ⟨hext, hinv⟩ := @extends_after ⟨op, stageOperation s op, s⟩ rfl
    obtain ⟨hext', hinv'⟩ := ih (after ⟨op, stageOperation s op, s⟩)
    exact ⟨hext.trans hext', fun hi => hinv' (hinv hi)⟩

/-- Staging records no answer but those of the operations it went through. -/
theorem records_finalState {op : TimestampOperation} {t : TransactionTime}
    (h : (finalState s ops).Records op t) : op ∈ ops ∨ s.Records op t := by
  induction ops generalizing s with
  | nil => exact Or.inr h
  | cons first ops ih =>
    rcases ih h with hmem | hrec
    · exact Or.inl (List.mem_cons_of_mem _ hmem)
    · cases hst : stageOperation s first with
      | error =>
        simp only [after, hst] at hrec
        exact Or.inr hrec
      | ok =>
        simp only [after, hst] at hrec
        rcases (stageOperation_issues hst).records_new hrec with rfl | hold
        · exact Or.inl List.mem_cons_self
        · exact Or.inr hold

/-- An answer of a trace was staged against the state its predecessors left. -/
theorem exists_before_of_mem (hmem : answer ∈ trace s ops) :
    ∃ first rest, ops = first ++ answer.operation :: rest ∧ answer.before = finalState s first := by
  induction ops generalizing s with
  | nil => cases hmem
  | cons op ops ih =>
    rcases List.mem_cons.mp hmem with rfl | hmem
    · exact ⟨[], ops, rfl, rfl⟩
    · obtain ⟨first, rest, hops, hbefore⟩ := ih hmem
      exact ⟨op :: first, rest, by rw [hops]; rfl, hbefore⟩

theorem outcome_of_mem (hmem : answer ∈ trace s ops) :
    answer.outcome = stageOperation answer.before answer.operation := by
  induction ops generalizing s with
  | nil => cases hmem
  | cons op ops ih =>
    rcases List.mem_cons.mp hmem with rfl | hmem
    · rfl
    · exact ih hmem

end StagedAnswer

/-- Every operation that repeats an earlier one of the batch is already
recorded in the state the batch starts from. -/
def RepeatsRecorded (s : TimestampState) (ops : List TimestampOperation) : Prop :=
  ∀ first op rest, ops = first ++ op :: rest → op ∈ first → ∃ t, s.Records op t

variable {ops : List TimestampOperation} {s : TimestampState}

theorem repeatsRecorded_of_nodup (h : ops.Nodup) : RepeatsRecorded s ops := by
  rintro first op rest rfl hmem
  exact absurd hmem ((List.nodup_append.mp h).2.2 op · op (by simp) rfl)

/-- If repeats are recorded, an operation answered without a record of its own
was answered from the state before the batch. -/
theorem StagedAnswer.records_of_repeatsRecorded (hrep : RepeatsRecorded s ops)
    {answer : StagedAnswer} (hmem : answer ∈ trace s ops) (hnone : answer.command = none)
    {t : TransactionTime} (hok : answer.result = .ok t) :
    s.Records answer.operation t := by
  have houtcome := outcome_of_mem hmem
  obtain ⟨first, rest, hops, hbefore⟩ := exists_before_of_mem hmem
  have hrec : (finalState s first).Records answer.operation t := by
    have hafter := records_after houtcome hok
    rwa [after_of_command_none houtcome hnone, hbefore] at hafter
  rcases records_finalState hrec with hfirst | hold
  · obtain ⟨u, hu⟩ := hrep first answer.operation rest hops hfirst
    rwa [hrec.unique ((extends_finalState s first).1.records hu)]
  · exact hold

namespace DurableTimestampAuthority

variable [Blake3]
variable {a : DurableTimestampAuthority}

/-- Replaying the records of a staged batch leads to the staged state. -/
theorem replay_recordBytes_trace (s : TimestampState) (ops : List TimestampOperation) :
    replay s (recordBytes (StagedAnswer.trace s ops)) = .ok (StagedAnswer.finalState s ops) := by
  induction ops generalizing s with
  | nil => rfl
  | cons op ops ih =>
    rw [StagedAnswer.finalState_cons, ← ih]
    set answer : StagedAnswer := ⟨op, stageOperation s op, s⟩ with hanswer
    change replay s (recordBytes (answer :: StagedAnswer.trace answer.after ops)) = _
    cases hc : answer.command with
    | none =>
      have hafter : answer.after = s := StagedAnswer.after_of_command_none rfl hc
      simp [recordBytes, hc, hafter]
    | some command =>
      have happly : s.apply command = .ok answer.after := by
        cases hst : stageOperation s op with
        | error => simp [hanswer, StagedAnswer.command, hst] at hc
        | ok =>
          rcases stageOperation_cases hst with
            ⟨hnone, -⟩ | ⟨command', hsome, -, -, happly⟩
          · simp [hanswer, StagedAnswer.command, hst, hnone] at hc
          · obtain rfl : command' = command := by
              simpa [hanswer, StagedAnswer.command, hst, hsome] using hc
            simpa [hanswer, StagedAnswer.after, hst] using happly
      simp only [recordBytes, replay, List.filterMap_cons, hc, Option.map_some,
        List.foldlM_cons, decodeCommand_encodeCommand]
      change (s.apply command >>= fun state => _) = _
      rw [happly]
      rfl

/-- A batch whose append succeeds publishes the staged state and its records. -/
theorem applyBatch_ok (a : DurableTimestampAuthority) (ops : List TimestampOperation) :
    a.applyBatch (.ok ()) ops =
      ((trace a.state ops).map result,
        ⟨a.log ++ recordBytes (trace a.state ops),
          finalState a.state ops⟩) := by
  rw [applyBatch, stageBatch_eq]
  split_ifs with hempty
  · have hnil : recordBytes (trace a.state ops) = [] := List.isEmpty_iff.mp hempty
    have hreplay := replay_recordBytes_trace a.state ops
    rw [hnil] at hreplay
    have hstate : a.state = finalState a.state ops := Except.ok.inj hreplay
    rw [hnil, List.append_nil, ← hstate]
  · rfl

/-- A batch whose append fails leaves the authority as it was. -/
theorem applyBatch_error (a : DurableTimestampAuthority) (error : TxnError)
    (ops : List TimestampOperation) :
    a.applyBatch (.error error) ops =
      ((trace a.state ops).map (fun answer => answer.failedResult error), a) := by
  rw [applyBatch, stageBatch_eq]
  split_ifs with hempty
  · have hnil : recordBytes (trace a.state ops) = [] := List.isEmpty_iff.mp hempty
    congr 1
    apply List.map_congr_left
    intro answer hmem
    have hnone : answer.command = none := by
      simpa using List.filterMap_eq_nil_iff.mp hnil answer hmem
    simp [failedResult, hnone]
  · have h := failPersisted_positions error [] (trace a.state ops)
    simp only [List.nil_append, List.length_nil] at h
    rw [h]

theorem openLog_log {log : List (List UInt8)} (h : openLog log = .ok a) : a.log = log := by
  obtain ⟨state, -, ha⟩ := Result.bind_eq_ok.mp h
  cases ha
  rfl

/-- Whatever log an authority opens from, its state satisfies the invariant. -/
theorem openLog_inv {log : List (List UInt8)} (h : openLog log = .ok a) : a.state.Inv := by
  obtain ⟨state, hreplay, ha⟩ := Result.bind_eq_ok.mp h
  cases ha
  refine Result.foldlM_invariant TimestampState.Inv ?_ log inv_empty hreplay
  intro s bytes s' hi hstep
  obtain ⟨command, -, happly⟩ := Result.bind_eq_ok.mp hstep
  exact (apply_issues happly).inv hi

def runBatches (a : DurableTimestampAuthority) (calls : List BatchCall) :
    DurableTimestampAuthority :=
  calls.foldl (fun a call => (a.applyBatch call.append call.operations).2) a

theorem runBatches_append (a : DurableTimestampAuthority) (first rest : List BatchCall) :
    a.runBatches (first ++ rest) = (a.runBatches first).runBatches rest := by
  simp [runBatches]

theorem runBatches_cons (a : DurableTimestampAuthority) (call : BatchCall)
    (calls : List BatchCall) :
    a.runBatches (call :: calls) =
      (a.applyBatch call.append call.operations).2.runBatches calls := rfl

/-- Reopening the log gives the authority as it is in memory. -/
theorem openLog_applyBatch (h : openLog a.log = .ok a) (append : Except TxnError Unit)
    (ops : List TimestampOperation) :
    openLog (a.applyBatch append ops).2.log = .ok (a.applyBatch append ops).2 := by
  cases append with
  | error =>
    rw [applyBatch_error]
    exact h
  | ok =>
    rw [applyBatch_ok]
    obtain ⟨state, hreplay, ha⟩ := Result.bind_eq_ok.mp h
    obtain rfl : state = a.state := congrArg DurableTimestampAuthority.state (Except.ok.inj ha)
    have hnext := replay_recordBytes_trace a.state ops
    simp only [openLog, replay, List.foldlM_append] at hreplay hnext ⊢
    rw [hreplay]
    change (List.foldlM _ a.state _ >>= fun state => _) = _
    rw [hnext]
    rfl

theorem openLog_runBatches (h : openLog a.log = .ok a)
    (calls : List BatchCall) : openLog (a.runBatches calls).log = .ok (a.runBatches calls) := by
  induction calls generalizing a with
  | nil => exact h
  | cons call calls ih =>
    exact ih (openLog_applyBatch h call.append call.operations)

/-- Every failed batch of the run repeats only operations that were recorded
before it. -/
def FailuresIndependent (a : DurableTimestampAuthority) (calls : List BatchCall) : Prop :=
  ∀ first call rest error, calls = first ++ call :: rest → call.append = .error error →
    RepeatsRecorded (a.runBatches first).state call.operations

/-- It is enough that no failed batch repeats an operation. -/
theorem failuresIndependent_of_nodup (a : DurableTimestampAuthority) (calls : List BatchCall)
    (h : ∀ call ∈ calls, call.append ≠ .ok () → call.operations.Nodup) :
    FailuresIndependent a calls := by
  rintro first call rest error rfl happend
  exact repeatsRecorded_of_nodup (h call (by simp) (by simp [happend]))

theorem extends_applyBatch (a : DurableTimestampAuthority) (append : Except TxnError Unit)
    (ops : List TimestampOperation) :
    a.state.Extends (a.applyBatch append ops).2.state ∧
      (a.state.Inv → (a.applyBatch append ops).2.state.Inv) := by
  cases append with
  | error =>
    rw [applyBatch_error]
    exact ⟨.refl _, fun hi => hi⟩
  | ok =>
    rw [applyBatch_ok]
    exact extends_finalState a.state ops

theorem extends_runBatches (a : DurableTimestampAuthority) (calls : List BatchCall) :
    a.state.Extends (a.runBatches calls).state ∧ (a.state.Inv → (a.runBatches calls).state.Inv) := by
  induction calls generalizing a with
  | nil => exact ⟨.refl _, fun hi => hi⟩
  | cons call calls ih =>
    obtain ⟨hext, hinv⟩ := a.extends_applyBatch call.append call.operations
    obtain ⟨hext', hinv'⟩ := ih (a.applyBatch call.append call.operations).2
    exact ⟨hext.trans hext', fun hi => hinv' (hinv hi)⟩

/-- An accepted operation of a batch is recorded in the state the batch leaves,
unless the append failed and the operation repeats an unrecorded one. -/
theorem records_of_ok (a : DurableTimestampAuthority) (call : BatchCall)
    (hrep : ∀ error, call.append = .error error → RepeatsRecorded a.state call.operations)
    {i : ℕ} {op : TimestampOperation} {t : TransactionTime} (hop : call.operations[i]? = some op)
    (hok : (a.applyBatch call.append call.operations).1[i]? = some (.ok t)) :
    (a.applyBatch call.append call.operations).2.state.Records op t := by
  have htrace : ∃ answer, (trace a.state call.operations)[i]? = some answer ∧
      answer.operation = op := by
    rw [← map_operation_trace a.state call.operations] at hop
    simpa only [List.getElem?_map, Option.map_eq_some_iff] using hop
  obtain ⟨answer, hanswer, rfl⟩ := htrace
  have hmem : answer ∈ trace a.state call.operations := List.mem_of_getElem? hanswer
  cases happend : call.append with
  | error error =>
    rw [happend, applyBatch_error] at hok
    rw [applyBatch_error]
    have hfailed : answer.failedResult error = .ok t := by simpa [hanswer] using hok
    by_cases hc : answer.command.isSome
    · simp [failedResult, hc] at hfailed
    · rw [failedResult, if_neg hc] at hfailed
      exact records_of_repeatsRecorded (hrep error happend) hmem (by simpa using hc)
        hfailed
  | ok =>
    rw [happend, applyBatch_ok] at hok
    rw [applyBatch_ok]
    have hresult : answer.result = .ok t := by simpa [hanswer] using hok
    obtain ⟨first, rest, hops, hbefore⟩ := exists_before_of_mem hmem
    have houtcome := outcome_of_mem hmem
    have hafter := records_after houtcome hresult
    have hfinal : finalState a.state call.operations =
        finalState answer.after rest := by
      rw [hops, finalState_append, finalState_cons, ← hbefore]
      congr 1
      simp only [after, houtcome]
    rw [hfinal]
    exact (extends_finalState answer.after rest).1.records hafter

end DurableTimestampAuthority

end DtgProxy.Transaction

import DtgProxy.Transaction.TimestampRuns

/-! # Guarantees of the timestamp authority

Durability of accepted operations, and stability of the snapshots named by
start times.  Both depend on how a failed append is reported: the authority
withdraws only the answers that wrote a record, so an operation that repeats an
unrecorded one of the same batch keeps its answer.
-/
namespace DtgProxy.Transaction

open Kernel Lib StagedAnswer

namespace DurableTimestampAuthority

variable [Blake3]

/-- The operation at position `i` of a batch was answered from a record that the
state before the batch does not hold, so its answer rests on the batch's append. -/
def DependsOnAppend (s : TimestampState) (ops : List TimestampOperation) (i : ℕ) : Prop :=
  ∃ op t, ops[i]? = some op ∧ ((StagedAnswer.trace s ops).map StagedAnswer.result)[i]? = some (.ok t) ∧
    ¬ s.Records op t

/-- In a run whose failed batches repeat only recorded operations, every accepted
operation is reproduced by reopening the authority from its log at any later
point, and every operation that rests on a failed append is answered by its error. -/
theorem accepted_reproduced_by_reopening {log : List (List UInt8)}
    {a : DurableTimestampAuthority} (hopen : openLog log = .ok a) (calls : List BatchCall)
    (hfail : FailuresIndependent a calls) (first : List BatchCall) (call : BatchCall)
    (rest : List BatchCall) (hcalls : calls = first ++ call :: rest) (i : ℕ) :
    (∀ op t, call.operations[i]? = some op →
      ((a.runBatches first).applyBatch call.append call.operations).1[i]? = some (.ok t) →
      ∃ b, openLog (a.runBatches calls).log = .ok b ∧ b.state.Records op t) ∧
    (∀ error, call.append = .error error →
      DependsOnAppend (a.runBatches first).state call.operations i →
      ((a.runBatches first).applyBatch call.append call.operations).1[i]? = some (.error error)) := by
  have hrep : ∀ error, call.append = .error error →
      RepeatsRecorded (a.runBatches first).state call.operations :=
    fun error happend => hfail first call rest error hcalls happend
  constructor
  · intro op t hop hok
    have hlog : openLog a.log = .ok a := by rw [openLog_log hopen, hopen]
    refine ⟨_, openLog_runBatches hlog calls, ?_⟩
    have hrecords := records_of_ok (a.runBatches first) call hrep hop hok
    rw [hcalls, runBatches_append, runBatches_cons]
    exact (extends_runBatches _ rest).1.records hrecords
  · rintro error happend ⟨op, t, hop, hstaged, hnot⟩
    obtain ⟨answer, hanswer, hresult⟩ : ∃ answer,
        (StagedAnswer.trace (a.runBatches first).state call.operations)[i]? = some answer ∧
          answer.result = .ok t := by
      simpa only [List.getElem?_map, Option.map_eq_some_iff] using hstaged
    have hopEq : answer.operation = op := by
      rw [← StagedAnswer.map_operation_trace (a.runBatches first).state call.operations,
        List.getElem?_map, hanswer] at hop
      exact Option.some.inj hop
    rw [happend, applyBatch_error, List.getElem?_map, hanswer]
    by_cases hc : answer.command.isSome
    · simp [StagedAnswer.failedResult, hc]
    · have := StagedAnswer.records_of_repeatsRecorded (hrep error happend)
        (List.mem_of_getElem? hanswer) (by simpa using hc) hresult
      exact absurd (hopEq ▸ this) hnot

def fresh : DurableTimestampAuthority := ⟨[], .empty⟩

/-- A reservation that is accepted, then repeated next to a new one in a batch
whose append fails. -/
def repeatedReservation : List BatchCall :=
  [⟨[.reserveCommit 1], .ok ()⟩,
    ⟨[.reserveCommit 1, .reserveCommit 2],
      .error (.storage "append failed")⟩]

omit [Blake3] in
theorem repeatedReservation_reproduced :
    letI := foldHash
    ∃ b, openLog (fresh.runBatches repeatedReservation).log = .ok b ∧
      b.state.Records (.reserveCommit 1) 1 :=
  letI := foldHash
  (accepted_reproduced_by_reopening (rfl : openLog [] = .ok fresh) repeatedReservation
    (failuresIndependent_of_nodup fresh _ (by decide)) [] _ _ rfl 0).1 _ _ rfl rfl

/-- One allocation twice in a batch whose append fails. -/
def repeatedStart : BatchCall :=
  ⟨[.allocateStart 1, .allocateStart 1],
    .error (.storage "append failed")⟩

omit [Blake3] in
/-- The second allocation is answered from the staged state, rests on the failed
append, and is accepted all the same: reopening the log does not reproduce it. -/
theorem repeatedStart_accepted_and_lost :
    letI := foldHash
    openLog [] = .ok fresh ∧
      DependsOnAppend fresh.state repeatedStart.operations 1 ∧
      (fresh.applyBatch repeatedStart.append repeatedStart.operations).1 =
        [.error (.storage "append failed"), .ok 1] ∧
      openLog (fresh.runBatches [repeatedStart]).log = .ok fresh ∧
      ¬ fresh.state.Records (.allocateStart 1) 1 := by
  refine ⟨rfl, ⟨.allocateStart 1, 1, rfl, rfl, ?_⟩,
    rfl, rfl, ?_⟩ <;> simp [TimestampState.Records, fresh, TimestampState.empty]

/-- Submits operations one at a time, as the trait's own calls do. -/
def applyEach (a : DurableTimestampAuthority) :
    List TimestampOperation → List (Except TxnError TransactionTime) × DurableTimestampAuthority
  | [] => ([], a)
  | op :: ops =>
    let first := a.applyBatch (.ok ()) [op]
    let rest := first.2.applyEach ops
    (first.1 ++ rest.1, rest.2)

theorem applyEach_eq_applyBatch (a : DurableTimestampAuthority) (ops : List TimestampOperation) :
    a.applyEach ops = a.applyBatch (.ok ()) ops := by
  induction ops generalizing a with
  | nil => rfl
  | cons op ops ih =>
    have hsplit : ∀ answer answers, recordBytes (answer :: answers) =
        recordBytes [answer] ++ recordBytes answers :=
      fun answer answers => List.filterMap_append (l := [answer])
    rw [applyEach, ih, applyBatch_ok, applyBatch_ok, applyBatch_ok]
    simp only [trace, finalState, List.map_cons, List.map_nil,
      List.foldl_cons, List.foldl_nil, List.singleton_append, List.append_assoc]
    rw [← hsplit]

/-- After any batches, the log reopens to the authority in memory, every record
reads back as itself, and a batch is the same as its operations one by one. -/
theorem reopened_and_batch_eq_each {log : List (List UInt8)} {a : DurableTimestampAuthority}
    (hopen : openLog log = .ok a) (calls : List BatchCall) :
    openLog (a.runBatches calls).log = .ok (a.runBatches calls) ∧
      (∀ command, decodeCommand (encodeCommand command) = .ok command) ∧
      ∀ ops, (a.runBatches calls).applyBatch (.ok ()) ops = (a.runBatches calls).applyEach ops := by
  have hlog : openLog a.log = .ok a := by rw [openLog_log hopen, hopen]
  exact ⟨openLog_runBatches hlog calls, decodeCommand_encodeCommand,
    fun ops => (applyEach_eq_applyBatch _ ops).symm⟩

omit [Blake3] in
/-- The repeated reservation, reopened. -/
theorem repeatedReservation_reopened :
    letI := foldHash
    openLog (fresh.runBatches repeatedReservation).log = .ok (fresh.runBatches repeatedReservation) :=
  letI := foldHash
  (reopened_and_batch_eq_each (rfl : openLog [] = .ok fresh) repeatedReservation).1

end DurableTimestampAuthority

/-! ## Stable snapshots -/

/-- An answered operation of a run and the authority's state once it was answered. -/
structure Answer where
  operation : TimestampOperation
  result : Except TxnError TransactionTime
  state : TimestampState

namespace DurableTimestampAuthority

variable [Blake3]

/-- The states the operations of a batch leave: staged ones if the append
succeeds, the unchanged state otherwise. -/
def answerStates (a : DurableTimestampAuthority) (call : BatchCall) : List TimestampState :=
  match call.append with
  | .ok () => (StagedAnswer.trace a.state call.operations).map StagedAnswer.after
  | .error _ => call.operations.map (fun _ => a.state)

/-- The operations of one batch with the answers `apply_batch` returns for them. -/
def batchAnswers (a : DurableTimestampAuthority) (call : BatchCall) : List Answer :=
  List.zipWith (fun op answered => ⟨op, answered.1, answered.2⟩) call.operations
    ((a.applyBatch call.append call.operations).1.zip (a.answerStates call))

def answers (a : DurableTimestampAuthority) : List BatchCall → List Answer
  | [] => []
  | call :: calls =>
    a.batchAnswers call ++ answers (a.applyBatch call.append call.operations).2 calls

end DurableTimestampAuthority

/-- A start time names a stable snapshot: the reservations it covers are resolved
when it is handed out, later reservations lie above it, and no two transactions
are given the same commit time. -/
structure StableSnapshots (answers : List Answer) : Prop where
  covered_resolved : ∀ before p after id S, answers = before ++ p :: after →
    p.operation = .allocateStart id → p.result = .ok S →
    ∀ (a : TransactionId) (r : CommitTimeReservation), p.state.reservations[a]? = some r →
      r.commitTime ≤ S → r.resolution.isSome
  reserved_before : ∀ before p after id S, answers = before ++ p :: after →
    p.operation = .allocateStart id → p.result = .ok S →
    ∀ q ∈ before, ∀ a C, q.operation = .reserveCommit a → q.result = .ok C → C ≤ S →
      ∃ resolution, p.state.reservations[a]? = some ⟨C, some resolution⟩
  reserved_after : ∀ before p after id S, answers = before ++ p :: after →
    p.operation = .allocateStart id → p.result = .ok S →
    ∀ q ∈ after, ∀ a C, q.operation = .reserveCommit a → q.result = .ok C →
      p.state.reservations[a]? = none → S < C
  distinct : ∀ p ∈ answers, ∀ q ∈ answers, ∀ a b C, p.operation = .reserveCommit a →
    q.operation = .reserveCommit b → p.result = .ok C → q.result = .ok C → a = b

/-- The states of a run's answers, as one growing sequence in which every
accepted answer is recorded. -/
structure Coherent (s : TimestampState) (answers : List Answer) : Prop where
  inv : ∀ p ∈ answers, p.state.Inv
  records : ∀ p ∈ answers, ∀ t, p.result = .ok t → p.state.Records p.operation t
  later : ∀ p ∈ answers, s.Extends p.state
  ordered : answers.Pairwise (fun p q => p.state.Extends q.state)

variable {s : TimestampState}

theorem Coherent.append {first rest : List Answer} {s' : TimestampState} (hfirst : Coherent s first)
    (hrest : Coherent s' rest) (hs : s.Extends s')
    (hlast : ∀ p ∈ first, p.state.Extends s') : Coherent s (first ++ rest) where
  inv p hp := by
    rcases List.mem_append.mp hp with hp | hp
    · exact hfirst.inv p hp
    · exact hrest.inv p hp
  records p hp := by
    rcases List.mem_append.mp hp with hp | hp
    · exact hfirst.records p hp
    · exact hrest.records p hp
  later p hp := by
    rcases List.mem_append.mp hp with hp | hp
    · exact hfirst.later p hp
    · exact hs.trans (hrest.later p hp)
  ordered := by
    rw [List.pairwise_append]
    exact ⟨hfirst.ordered, hrest.ordered,
      fun p hp q hq => (hlast p hp).trans (hrest.later q hq)⟩

variable {answers : List Answer}

theorem Coherent.comparable (h : Coherent s answers) {p q : Answer} (hp : p ∈ answers)
    (hq : q ∈ answers) :
    p.state.Extends q.state ∨ q.state.Extends p.state := by
  obtain ⟨i, hi, rfl⟩ := List.mem_iff_getElem.mp hp
  obtain ⟨j, hj, rfl⟩ := List.mem_iff_getElem.mp hq
  have hordered := List.pairwise_iff_getElem.mp h.ordered
  rcases lt_trichotomy i j with hij | rfl | hij
  · exact Or.inl (hordered i j hi hj hij)
  · exact Or.inl (.refl _)
  · exact Or.inr (hordered j i hj hi hij)

/-- Coherent answers name stable snapshots. -/
theorem Coherent.stableSnapshots (h : Coherent s answers) : StableSnapshots answers := by
  have hstart : ∀ p ∈ answers, ∀ id S, p.operation = .allocateStart id → p.result = .ok S →
      p.state.startTimes[id]? = some S := by
    intro p hp id S hop hok
    have hrec := h.records p hp S hok
    rwa [hop] at hrec
  have hreserve : ∀ p ∈ answers, ∀ a C, p.operation = .reserveCommit a → p.result = .ok C →
      p.state.Records (.reserveCommit a) C := by
    intro p hp a C hop hok
    have hrec := h.records p hp C hok
    rwa [hop] at hrec
  refine ⟨?_, ?_, ?_, ?_⟩
  · rintro before p after id S rfl hop hok a r hr hle
    have hp : p ∈ before ++ p :: after := by simp
    exact (h.inv p hp).resolved_of_start (hstart p hp id S hop hok) hr hle
  · rintro before p after id S rfl hop hok q hq a C hqop hqok hle
    have hp : p ∈ before ++ p :: after := by simp
    have hqp : q.state.Extends p.state :=
      (List.pairwise_append.mp h.ordered).2.2 q hq p List.mem_cons_self
    have hrec := hqp.records (hreserve q (by simp [hq]) a C hqop hqok)
    obtain ⟨r, hr, rfl⟩ := Option.map_eq_some_iff.mp hrec
    obtain ⟨resolution, hres⟩ := Option.isSome_iff_exists.mp
      ((h.inv p hp).resolved_of_start (hstart p hp id S hop hok) hr hle)
    exact ⟨resolution, by rw [hr, ← hres]⟩
  · rintro before p after id S rfl hop hok q hq a C hqop hqok hnone
    have hp : p ∈ before ++ p :: after := by simp
    have hpq : p.state.Extends q.state :=
      (List.pairwise_cons.mp (List.pairwise_append.mp h.ordered).2.1).1 q hq
    obtain ⟨r, hr, rfl⟩ := Option.map_eq_some_iff.mp
      (hreserve q (by simp [hq]) a C hqop hqok)
    have hfresh := hpq.fresh hr hnone
    have hS := (h.inv p hp).start_le (hstart p hp id S hop hok)
    have hfrontier := (h.inv p hp).frontier_le
    rw [TransactionTime.lt_def]
    omega
  · intro p hp q hq a b C hpop hqop hpok hqok
    -- the later of the two states holds both reservations
    have hshared : ∃ state : TimestampState, state.Inv ∧
        state.Records (.reserveCommit a) C ∧ state.Records (.reserveCommit b) C := by
      have hpr := hreserve p hp a C hpop hpok
      have hqr := hreserve q hq b C hqop hqok
      rcases h.comparable hp hq with hpq | hqp
      · exact ⟨q.state, h.inv q hq, hpq.records hpr, hqr⟩
      · exact ⟨p.state, h.inv p hp, hpr, hqp.records hqr⟩
    obtain ⟨state, hinv, ha, hb⟩ := hshared
    obtain ⟨r, hr, hrC⟩ := Option.map_eq_some_iff.mp ha
    obtain ⟨r', hr', hrC'⟩ := Option.map_eq_some_iff.mp hb
    exact hinv.commit_inj hr hr' (hrC.trans hrC'.symm)

namespace DurableTimestampAuthority

variable [Blake3]

variable (a : DurableTimestampAuthority)

theorem batchAnswers_ok (ops : List TimestampOperation) :
    a.batchAnswers ⟨ops, .ok ()⟩ =
      (trace a.state ops).map
        (fun answer => ⟨answer.operation, answer.result, answer.after⟩) := by
  rw [batchAnswers, applyBatch_ok]
  have hops := (map_operation_trace a.state ops).symm
  simp only [answerStates]
  generalize trace a.state ops = trace at hops ⊢
  subst hops
  simp [List.zipWith_map, List.zip_map']

theorem batchAnswers_error (error : TxnError)
    (ops : List TimestampOperation) :
    a.batchAnswers ⟨ops, .error error⟩ =
      (trace a.state ops).map
        (fun answer => ⟨answer.operation, answer.failedResult error, a.state⟩) := by
  rw [batchAnswers, applyBatch_error]
  have hops := (map_operation_trace a.state ops).symm
  simp only [answerStates]
  generalize trace a.state ops = trace at hops ⊢
  subst hops
  simp [List.zipWith_map, List.zip_map']

omit [Blake3] in
private theorem coherent_trace {s : TimestampState} (hi : s.Inv) (ops : List TimestampOperation) :
    Coherent s ((trace s ops).map
      (fun answer => ⟨answer.operation, answer.result, answer.after⟩)) ∧
    ∀ answer ∈ trace s ops,
      answer.after.Extends (finalState s ops) := by
  induction ops generalizing s with
  | nil => exact ⟨⟨by simp [trace], by simp [trace],
      by simp [trace], by simp [trace]⟩, by simp [trace]⟩
  | cons op ops ih =>
    set answer : StagedAnswer := ⟨op, stageOperation s op, s⟩ with hanswer
    obtain ⟨hext, hinv⟩ := @extends_after answer rfl
    obtain ⟨hrest, hfinal⟩ := ih (hinv hi)
    have hone : Coherent s [⟨answer.operation, answer.result, answer.after⟩] := by
      refine ⟨?_, ?_, ?_, List.pairwise_singleton _ _⟩
      · simpa using hinv hi
      · simpa using fun t ht => @records_after answer rfl t ht
      · simpa using hext
    exact ⟨hone.append hrest hext (by simpa using .refl _),
      List.forall_mem_cons.mpr ⟨(extends_finalState answer.after ops).1, hfinal⟩⟩

/-- The answers of one batch are coherent if a failed append repeats only
recorded operations. -/
theorem coherent_batchAnswers (hi : a.state.Inv)
    (call : BatchCall)
    (hrep : ∀ error, call.append = .error error → RepeatsRecorded a.state call.operations) :
    Coherent a.state (a.batchAnswers call) ∧ ∀ p ∈ a.batchAnswers call,
      p.state.Extends (a.applyBatch call.append call.operations).2.state := by
  obtain ⟨ops, append⟩ := call
  cases append with
  | ok =>
    rw [batchAnswers_ok, applyBatch_ok]
    obtain ⟨hcoherent, hfinal⟩ := coherent_trace hi ops
    exact ⟨hcoherent, by simpa using hfinal⟩
  | error error =>
    rw [batchAnswers_error, applyBatch_error]
    refine ⟨⟨?_, ?_, ?_, ?_⟩, ?_⟩
    · simpa using fun _ _ => hi
    · intro p hp t ht
      obtain ⟨answer, hmem, rfl⟩ := List.mem_map.mp hp
      by_cases hc : answer.command.isSome
      · simp [failedResult, hc] at ht
      · rw [failedResult, if_neg hc] at ht
        exact records_of_repeatsRecorded (hrep error rfl) hmem (by simpa using hc) ht
    · simpa using fun _ _ => .refl _
    · rw [List.pairwise_map]
      exact List.pairwise_of_forall (fun _ _ => .refl _)
    · simpa using fun _ _ => .refl _

theorem coherent_answers (hi : a.state.Inv)
    (calls : List BatchCall) (hfail : FailuresIndependent a calls) :
    Coherent a.state (a.answers calls) := by
  induction calls generalizing a with
  | nil => exact ⟨by simp [answers], by simp [answers], by simp [answers], by simp [answers]⟩
  | cons call calls ih =>
    obtain ⟨hext, hinv⟩ := a.extends_applyBatch call.append call.operations
    obtain ⟨hbatch, hlast⟩ := coherent_batchAnswers a hi call
      (fun error happend => hfail [] call calls error rfl happend)
    refine hbatch.append (ih _ (hinv hi) ?_) hext hlast
    intro first c rest error hcalls happend
    exact hfail (call :: first) c rest error (by rw [hcalls]; rfl) happend

/-- Every run whose failed batches repeat only recorded operations hands out
stable snapshots. -/
theorem startTimes_name_stable_snapshots {log : List (List UInt8)}
    {a : DurableTimestampAuthority} (hopen : openLog log = .ok a) (calls : List BatchCall)
    (hfail : FailuresIndependent a calls) : StableSnapshots (a.answers calls) :=
  (coherent_answers a (openLog_inv hopen) calls hfail).stableSnapshots

/-- Start times are handed out before any reservation, while a lower one is pending,
and after all are resolved; a batch fails in between. -/
def fencedFrontier : List BatchCall :=
  [⟨[.allocateStart 1, .reserveCommit 1, .reserveCommit 2], .ok ()⟩,
    ⟨[.resolveCommit 2 3 .committed], .ok ()⟩,
    ⟨[.allocateStart 3, .reserveCommit 3], .error (.storage "append failed")⟩,
    ⟨[.allocateStart 3], .ok ()⟩,
    ⟨[.resolveCommit 1 2 .aborted, .allocateStart 4, .reserveCommit 4], .ok ()⟩]

omit [Blake3] in
theorem fencedFrontier_stable :
    letI := foldHash
    (fresh.answers fencedFrontier).map (·.result) =
        [.ok 1, .ok 2, .ok 3, .ok 3, .error (.storage "append failed"),
          .error (.storage "append failed"), .ok 1, .ok 2, .ok 4, .ok 5] ∧
      StableSnapshots (fresh.answers fencedFrontier) := by
  let _ := foldHash
  refine ⟨by rfl, startTimes_name_stable_snapshots (rfl : openLog [] = .ok fresh) fencedFrontier ?_⟩
  exact failuresIndependent_of_nodup fresh _ (by decide)

omit [Blake3] in
/-- After the failed batch, another transaction reserves the very time that was
handed out as a start time. -/
theorem repeatedStart_not_stable :
    letI := foldHash
    openLog [] = .ok fresh ∧
      ¬ StableSnapshots (fresh.answers
        [repeatedStart, ⟨[.reserveCommit 2], .ok ()⟩]) := by
  let _ := foldHash
  refine ⟨rfl, fun h => ?_⟩
  have hlt := h.reserved_after [⟨.allocateStart 1, _, _⟩]
    ⟨.allocateStart 1, .ok 1, .empty⟩
    [⟨.reserveCommit 2, .ok 1, _⟩]
    1 1 rfl rfl rfl _ List.mem_cons_self
    2 1 rfl rfl rfl
  exact lt_irrefl _ hlt

end DurableTimestampAuthority

end DtgProxy.Transaction

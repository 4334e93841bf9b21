import DtgProxy.Transaction.TimestampInvariant

/-! # The durable timestamp authority

The authority keeps its state in memory and a command log on disk.  A batch is
staged against a copy of the state, its new records are appended in one atomic
write, and only then is the staged state published.  Opening the authority
replays the log.
-/
namespace DtgProxy.Transaction

open Kernel Lib BigEndian

section Codec

variable [Blake3]

def commandMagic : List UInt8 := "DTGT".toUTF8.data.toList

def commandVersion : ℕ := 1

def commandPrefixBytes : ℕ := 32

def commandBytes : ℕ := commandPrefixBytes + 32

/-- The tag and resolution bytes of a record. -/
def TimestampCommand.tags : TimestampCommand → UInt8 × UInt8
  | .allocateStart _ _ => (1, 0)
  | .reserveCommit _ _ => (2, 0)
  | .resolveCommit _ _ .committed => (3, 1)
  | .resolveCommit _ _ .aborted => (3, 2)

/-- The checksummed part of a record. -/
def encodeCommandBody (command : TimestampCommand) : List UInt8 :=
  commandMagic ++ BigEndian.encode 2 commandVersion ++ [command.tags.1] ++
    command.transactionId.toBytes ++ command.timestamp.toBytes ++ [command.tags.2]

def commandChecksum (bytes : List UInt8) : Digest32 :=
  Blake3.hash ("dtg-timestamp-command-v1".toUTF8.data.toList ++ bytes)

def encodeCommand (command : TimestampCommand) : List UInt8 :=
  encodeCommandBody command ++ (commandChecksum (encodeCommandBody command)).bytes

def decodeTags (transactionId : TransactionId) (timestamp : TransactionTime) :
    UInt8 × UInt8 → Except TxnError TimestampCommand
  | (1, 0) => .ok (.allocateStart transactionId timestamp)
  | (2, 0) => .ok (.reserveCommit transactionId timestamp)
  | (3, 1) => .ok (.resolveCommit transactionId timestamp .committed)
  | (3, 2) => .ok (.resolveCommit transactionId timestamp .aborted)
  | _ => .error .corruptRecovery

def decodeCommand (bytes : List UInt8) : Except TxnError TimestampCommand :=
  if bytes.length ≠ commandBytes ∨ bytes.take 4 ≠ commandMagic ∨
      BigEndian.decode (BigEndian.slice bytes 4 6) ≠ commandVersion then
    .error .corruptRecovery
  else if (commandChecksum (bytes.take commandPrefixBytes)).bytes ≠
      bytes.drop commandPrefixBytes then
    .error .corruptRecovery
  else
    match Identifier.new (BigEndian.decode (BigEndian.slice bytes 7 23)),
        TransactionTime.new (BigEndian.decode (BigEndian.slice bytes 23 31)) with
    | some transactionId, some timestamp =>
      decodeTags transactionId timestamp (bytes.getD 6 0, bytes.getD 31 0)
    | _, _ => .error .corruptRecovery

omit [Blake3] in
theorem length_commandMagic : commandMagic.length = 4 := rfl

variable (command : TimestampCommand)

omit [Blake3] in
theorem length_encodeCommandBody :
    (encodeCommandBody command).length = commandPrefixBytes := by
  simp [encodeCommandBody, length_commandMagic, commandPrefixBytes, IdKind.bytes]

private theorem encodeCommand_eq :
    encodeCommand command =
      commandMagic ++ (encode 2 commandVersion ++ (command.tags.1 ::
        (command.transactionId.toBytes ++ (command.timestamp.toBytes ++ (command.tags.2 ::
          (commandChecksum (encodeCommandBody command)).bytes))))) := by
  simp [encodeCommand, encodeCommandBody]

/-- The multi-byte fields of a record, read back by offset. -/
private theorem slice_encodeCommand :
    slice (encodeCommand command) 4 6 = encode 2 commandVersion ∧
      slice (encodeCommand command) 7 23 = command.transactionId.toBytes ∧
      slice (encodeCommand command) 23 31 = command.timestamp.toBytes := by
  rw [encodeCommand_eq]
  refine ⟨?_, ?_, ?_⟩
  · rw [← List.append_assoc]
    exact slice_append length_commandMagic (by simp)
  · rw [← List.append_assoc, List.append_cons, ← List.append_assoc]
    exact slice_append (by simp [length_commandMagic]) (by simp [IdKind.bytes])
  · rw [← List.append_assoc, List.append_cons, ← List.append_assoc,
      ← List.append_assoc]
    exact slice_append (by simp [length_commandMagic, IdKind.bytes]) (by simp)

private theorem getD_encodeCommand :
    (encodeCommand command).getD 6 0 = command.tags.1 ∧
      (encodeCommand command).getD 31 0 = command.tags.2 := by
  rw [encodeCommand_eq]
  constructor
  · rw [← List.append_assoc]
    exact getD_append_cons (by simp [length_commandMagic])
  · rw [← List.append_assoc, List.append_cons, ← List.append_assoc, ← List.append_assoc]
    exact getD_append_cons (by simp [length_commandMagic, IdKind.bytes])

omit [Blake3] in
private theorem decodeTags_tags :
    decodeTags command.transactionId command.timestamp command.tags = .ok command := by
  cases command with
  | allocateStart => rfl
  | reserveCommit => rfl
  | resolveCommit id t resolution => cases resolution <;> rfl

/-- Replay reads back every record the authority writes. -/
theorem decodeCommand_encodeCommand :
    decodeCommand (encodeCommand command) = .ok command := by
  have hlen : (encodeCommand command).length = commandBytes := by
    simp [encodeCommand, length_encodeCommandBody, commandBytes]
  have hmagic : (encodeCommand command).take 4 = commandMagic := by
    exact List.take_left' length_commandMagic
  obtain ⟨hversion, hid, htime⟩ := slice_encodeCommand command
  obtain ⟨htag, hres⟩ := getD_encodeCommand command
  have htake : (encodeCommand command).take commandPrefixBytes = encodeCommandBody command :=
    List.take_left' (length_encodeCommandBody command)
  have hdrop : (encodeCommand command).drop commandPrefixBytes =
      (commandChecksum (encodeCommandBody command)).bytes :=
    List.drop_left' (length_encodeCommandBody command)
  have hdecode : decode (encode 2 commandVersion) = commandVersion :=
    decode_encode (by norm_num [commandVersion])
  rw [decodeCommand, if_neg (by simp [hlen, hmagic, hversion, hdecode]), htake, hdrop,
    if_neg (by simp), hid, htime, Identifier.new_decode_toBytes,
    TransactionTime.new_decode_toBytes, htag, hres]
  exact decodeTags_tags command

end Codec

/-- The loop variables of a batch: the staged state, the encoded records, the
answers so far and the positions of the answers that wrote a record. -/
structure BatchStaging where
  staged : TimestampState
  commands : List (List UInt8)
  results : List (Except TxnError TransactionTime)
  persisted : List ℕ

structure DurableTimestampAuthority where
  log : List (List UInt8)
  state : TimestampState

section Batch

variable [Blake3]

/-- One pass of the loop over a batch's operations. -/
def BatchStaging.stage (b : BatchStaging) (operation : TimestampOperation) : BatchStaging :=
  match stageOperation b.staged operation with
  | .ok st =>
    match st.command with
    | some command =>
      { staged := st.state
        commands := b.commands ++ [encodeCommand command]
        persisted := b.persisted ++ [b.results.length]
        results := b.results ++ [.ok st.timestamp] }
    | none => { b with staged := st.state, results := b.results ++ [.ok st.timestamp] }
  | .error error => { b with results := b.results ++ [.error error] }

/-- Replaces the answers at the given positions by an error. -/
def failPersisted (error : TxnError) (results : List (Except TxnError TransactionTime))
    (persisted : List ℕ) : List (Except TxnError TransactionTime) :=
  persisted.foldl (fun answers index => answers.set index (.error error)) results

namespace DurableTimestampAuthority

def stageBatch (s : TimestampState) (operations : List TimestampOperation) : BatchStaging :=
  operations.foldl BatchStaging.stage ⟨s, [], [], []⟩

/-- Applies a batch.  `append` is what the log's atomic append returns: on an
error nothing was written. -/
def applyBatch (authority : DurableTimestampAuthority) (append : Except TxnError Unit)
    (operations : List TimestampOperation) :
    List (Except TxnError TransactionTime) × DurableTimestampAuthority :=
  let b := stageBatch authority.state operations
  if b.commands.isEmpty then (b.results, authority)
  else
    match append with
    | .error error => (failPersisted error b.results b.persisted, authority)
    | .ok () => (b.results, ⟨authority.log ++ b.commands, b.staged⟩)

def replay (s : TimestampState) (log : List (List UInt8)) : Except TxnError TimestampState :=
  log.foldlM (fun state bytes => do state.apply (← decodeCommand bytes)) s

/-- Opens the authority from its log. -/
def openLog (log : List (List UInt8)) : Except TxnError DurableTimestampAuthority := do
  let state ← replay TimestampState.empty log
  .ok ⟨log, state⟩

end DurableTimestampAuthority

end Batch

/-! ## The operations of a batch, one at a time -/

/-- What staging made of one operation of a batch: the state it was staged
against, its outcome and the state it left. -/
structure StagedAnswer where
  operation : TimestampOperation
  outcome : Except TxnError Staged
  before : TimestampState

namespace StagedAnswer

def after (answer : StagedAnswer) : TimestampState :=
  match answer.outcome with
  | .ok st => st.state
  | .error _ => answer.before

def command (answer : StagedAnswer) : Option TimestampCommand :=
  match answer.outcome with
  | .ok st => st.command
  | .error _ => none

def result (answer : StagedAnswer) : Except TxnError TransactionTime :=
  answer.outcome.map (·.timestamp)

/-- The answer the caller sees once the append failed. -/
def failedResult (answer : StagedAnswer) (error : TxnError) : Except TxnError TransactionTime :=
  if answer.command.isSome then .error error else answer.result

/-- The answers of a batch staged from `s`, in order. -/
def trace (s : TimestampState) : List TimestampOperation → List StagedAnswer
  | [] => []
  | op :: ops =>
    let answer : StagedAnswer := ⟨op, stageOperation s op, s⟩
    answer :: trace answer.after ops

def finalState (s : TimestampState) (ops : List TimestampOperation) : TimestampState :=
  (trace s ops).foldl (fun _ answer => answer.after) s

/-- The positions, counted from `n`, of the answers that created a record. -/
def positions : ℕ → List StagedAnswer → List ℕ
  | _, [] => []
  | n, answer :: rest =>
    if answer.command.isSome then n :: positions (n + 1) rest else positions (n + 1) rest

end StagedAnswer

section BatchSpec

variable [Blake3]

def recordBytes (answers : List StagedAnswer) : List (List UInt8) :=
  answers.filterMap (fun answer => answer.command.map encodeCommand)

theorem BatchStaging.stage_eq (b : BatchStaging) (op : TimestampOperation)
    (answer : StagedAnswer) (h : answer = ⟨op, stageOperation b.staged op, b.staged⟩) :
    b.stage op =
      ⟨answer.after, b.commands ++ recordBytes [answer], b.results ++ [answer.result],
        b.persisted ++ StagedAnswer.positions b.results.length [answer]⟩ := by
  subst h
  unfold BatchStaging.stage
  cases hst : stageOperation b.staged op with
  | error =>
    simp [StagedAnswer.after, StagedAnswer.result, StagedAnswer.positions, StagedAnswer.command,
      recordBytes, Except.map]
  | ok st =>
    cases hc : st.command with
    | none | some command =>
      simp [StagedAnswer.after, StagedAnswer.result, StagedAnswer.positions,
        StagedAnswer.command, recordBytes, Except.map, hc]

open StagedAnswer

omit [Blake3] in
private theorem positions_append (n : ℕ) (first rest : List StagedAnswer) :
    positions n (first ++ rest) =
      positions n first ++ positions (n + first.length) rest := by
  induction first generalizing n with
  | nil => rfl
  | cons answer first ih =>
    simp only [List.cons_append, positions, ih, List.length_cons]
    rw [show n + 1 + first.length = n + (first.length + 1) by omega]
    split_ifs <;> rfl

/-- The loop over a batch computes the trace of its operations. -/
private theorem foldl_stage (b : BatchStaging) (ops : List TimestampOperation) :
    ops.foldl BatchStaging.stage b =
      ⟨finalState b.staged ops,
        b.commands ++ recordBytes (trace b.staged ops),
        b.results ++ (trace b.staged ops).map result,
        b.persisted ++
          positions b.results.length (trace b.staged ops)⟩ := by
  induction ops generalizing b with
  | nil => simp [trace, finalState, positions, recordBytes]
  | cons op ops ih =>
    rw [List.foldl_cons, ih, b.stage_eq op _ rfl]
    have hpos := positions_append b.results.length [⟨op, stageOperation b.staged op, b.staged⟩]
      (trace (after ⟨op, stageOperation b.staged op, b.staged⟩) ops)
    rw [List.length_singleton] at hpos
    simp only [List.length_append, List.length_singleton, List.append_assoc, ← hpos]
    simp [trace, finalState, recordBytes, List.filterMap_cons]
    cases (command ⟨op, stageOperation b.staged op, b.staged⟩) <;> simp

theorem stageBatch_eq (s : TimestampState) (ops : List TimestampOperation) :
    DurableTimestampAuthority.stageBatch s ops =
      ⟨finalState s ops, recordBytes (trace s ops),
        (trace s ops).map result,
        positions 0 (trace s ops)⟩ := by
  rw [DurableTimestampAuthority.stageBatch, foldl_stage]
  simp

omit [Blake3] in
/-- Failing the persisted positions replaces exactly the answers that created a record. -/
theorem failPersisted_positions (error : TxnError)
    (before : List (Except TxnError TransactionTime)) (answers : List StagedAnswer) :
    failPersisted error (before ++ answers.map result)
        (positions before.length answers) =
      before ++ answers.map (fun answer => answer.failedResult error) := by
  induction answers generalizing before with
  | nil => simp [failPersisted, positions]
  | cons answer answers ih =>
    have hstep := ih (before ++ [answer.failedResult error])
    by_cases hc : answer.command.isSome
    · simp only [failedResult, hc, if_true] at hstep ⊢
      simpa [failPersisted, positions, hc] using hstep
    · simp only [failedResult, hc] at hstep ⊢
      simpa [failPersisted, positions, hc] using hstep

end BatchSpec

end DtgProxy.Transaction

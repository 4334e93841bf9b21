import DtgProxy.Transaction.Types

/-! # The state of the timestamp authority

Start times and commit-time reservations are issued from one counter.  The
published frontier follows the counter only across resolved reservations, so a
start time taken from the frontier never overtakes a pending commit.
-/
namespace DtgProxy.Transaction

open Kernel Lib

/-- The log records of the authority. -/
inductive TimestampCommand where
  | allocateStart (transactionId : TransactionId) (timestamp : TransactionTime)
  | reserveCommit (transactionId : TransactionId) (timestamp : TransactionTime)
  | resolveCommit (transactionId : TransactionId) (timestamp : TransactionTime)
      (resolution : CommitResolution)
deriving DecidableEq, Repr

def TimestampCommand.transactionId : TimestampCommand → TransactionId
  | .allocateStart id _ | .reserveCommit id _ | .resolveCommit id _ _ => id

def TimestampCommand.timestamp : TimestampCommand → TransactionTime
  | .allocateStart _ t | .reserveCommit _ t | .resolveCommit _ t _ => t

@[ext] structure TimestampState where
  lastIssued : ℕ
  publishedFrontier : ℕ
  startTimes : OrderedMap TransactionId TransactionTime
  reservations : OrderedMap TransactionId CommitTimeReservation
deriving DecidableEq

namespace TimestampState

def empty : TimestampState := ⟨0, 0, ∅, ∅⟩

/-- `i64::checked_add(1)` on a counter that is never negative. -/
def checkedSucc (n : ℕ) : Option TransactionTime := TransactionTime.new (n + 1)

def nextTimestamp (s : TimestampState) : Except TxnError TransactionTime :=
  match checkedSucc s.lastIssued with
  | some t => .ok t
  | none => .error .resourceLimit

def hasPending (s : TimestampState) : Bool :=
  s.reservations.anyValue (fun reservation => reservation.resolution.isNone)

def nextStartTime (s : TimestampState) : Except TxnError TransactionTime :=
  if s.hasPending then
    match TransactionTime.new s.publishedFrontier with
    | some t => .ok t
    | none => .error .corruptRecovery
  else s.nextTimestamp

def applyNewTimestamp (s : TimestampState) (timestamp : TransactionTime) :
    Except TxnError TimestampState :=
  match checkedSucc s.lastIssued with
  | none => .error .corruptRecovery
  | some next =>
    if timestamp ≠ next then .error .corruptRecovery
    else .ok { s with lastIssued := timestamp.get }

/-- Some reservation at time `t` is resolved. -/
def resolvedAt (s : TimestampState) (t : ℕ) : Bool :=
  s.reservations.anyValue
    (fun reservation => reservation.commitTime.get == t && reservation.resolution.isSome)

/-- The frontier loop.  It runs while the frontier is below the last issued
time, at most `fuel = lastIssued - publishedFrontier` times. -/
def advanceLoop (resolved : ℕ → Bool) : ℕ → ℕ → ℕ
  | 0, frontier => frontier
  | fuel + 1, frontier =>
    if resolved (frontier + 1) then advanceLoop resolved fuel (frontier + 1) else frontier

def advancePublishedFrontier (s : TimestampState) : TimestampState :=
  { s with
    publishedFrontier :=
      advanceLoop s.resolvedAt (s.lastIssued - s.publishedFrontier) s.publishedFrontier }

def applyAllocateStart (s : TimestampState) (id : TransactionId) (timestamp : TransactionTime) :
    Except TxnError TimestampState :=
  match s.startTimes[id]? with
  | some existing => if existing = timestamp then .ok s else .error .corruptRecovery
  | none =>
    match checkedSucc s.lastIssued with
    | none => .error .corruptRecovery
    | some next =>
      if timestamp = next then
        if s.publishedFrontier ≠ s.lastIssued then .error .corruptRecovery
        else do
          let issued ← s.applyNewTimestamp timestamp
          .ok { issued with
            publishedFrontier := timestamp.get
            startTimes := issued.startTimes.insert id timestamp }
      else if timestamp.get ≠ s.publishedFrontier then .error .corruptRecovery
      else .ok { s with startTimes := s.startTimes.insert id timestamp }

def applyReserveCommit (s : TimestampState) (id : TransactionId) (timestamp : TransactionTime) :
    Except TxnError TimestampState :=
  match s.reservations[id]? with
  | some existing => if existing.commitTime = timestamp then .ok s else .error .corruptRecovery
  | none => do
    let issued ← s.applyNewTimestamp timestamp
    .ok { issued with reservations := issued.reservations.insert id ⟨timestamp, none⟩ }

def applyResolveCommit (s : TimestampState) (id : TransactionId) (timestamp : TransactionTime)
    (resolution : CommitResolution) : Except TxnError TimestampState :=
  match s.reservations[id]? with
  | none => .error .corruptRecovery
  | some reservation =>
    if reservation.commitTime ≠ timestamp then .error .corruptRecovery
    else
      match reservation.resolution with
      | some existing => if existing = resolution then .ok s else .error .corruptRecovery
      | none =>
        let resolved : TimestampState :=
          { s with reservations := s.reservations.insert id ⟨timestamp, some resolution⟩ }
        .ok resolved.advancePublishedFrontier

def apply (s : TimestampState) : TimestampCommand → Except TxnError TimestampState
  | .allocateStart id timestamp => s.applyAllocateStart id timestamp
  | .reserveCommit id timestamp => s.applyReserveCommit id timestamp
  | .resolveCommit id timestamp resolution => s.applyResolveCommit id timestamp resolution

end TimestampState

/-- The requests of the authority. -/
inductive TimestampOperation where
  | allocateStart (transactionId : TransactionId)
  | reserveCommit (transactionId : TransactionId)
  | resolveCommit (transactionId : TransactionId) (commitTime : TransactionTime)
      (resolution : CommitResolution)
deriving DecidableEq, Repr

/-- An operation's answer, the log record it creates and the state it leaves.  An
operation the state already records creates no log record. -/
structure Staged where
  timestamp : TransactionTime
  command : Option TimestampCommand
  state : TimestampState

/-- Applies a new record, answering with its time. -/
def stageCommand (s : TimestampState) (command : TimestampCommand) : Except TxnError Staged := do
  let state ← s.apply command
  .ok ⟨command.timestamp, some command, state⟩

def stageOperation (s : TimestampState) : TimestampOperation → Except TxnError Staged
  | .allocateStart id =>
    match s.startTimes[id]? with
    | some timestamp => .ok ⟨timestamp, none, s⟩
    | none => do
      let timestamp ← s.nextStartTime
      stageCommand s (.allocateStart id timestamp)
  | .reserveCommit id =>
    match s.reservations[id]? with
    | some reservation => .ok ⟨reservation.commitTime, none, s⟩
    | none => do
      let timestamp ← s.nextTimestamp
      stageCommand s (.reserveCommit id timestamp)
  | .resolveCommit id commitTime resolution =>
    match s.reservations[id]? with
    | none => .error .corruptRecovery
    | some reservation =>
      if reservation.commitTime ≠ commitTime then .error .corruptRecovery
      else
        match reservation.resolution with
        | some existing =>
          if existing = resolution then .ok ⟨commitTime, none, s⟩ else .error .corruptRecovery
        | none => stageCommand s (.resolveCommit id commitTime resolution)

end DtgProxy.Transaction

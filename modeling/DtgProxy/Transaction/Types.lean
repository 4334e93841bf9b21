import DtgProxy.Kernel.Identity

/-! # Errors, reservations and outcomes of the transaction layer -/
namespace DtgProxy.Transaction

open Kernel

inductive TxnError where
  | writeConflict
  | incompleteSnapshot
  | duplicateShardFence
  | inconsistentSnapshot
  | stalePlacementEpoch
  | staleBackendGeneration
  | appliedIndexUnavailable
  | readTimeExceedsClosedTime
  | referentialIntegrity
  | duplicateIdentity
  | invalidMutation
  | resourceLimit
  | participantsMismatch
  | shard (message : String)
  | storage (message : String)
  | corruptRecovery
  | injectedCrash
deriving DecidableEq, Repr

/-- How a commit-time reservation ended. -/
inductive CommitResolution where
  | committed
  | aborted
deriving DecidableEq, Repr

/-- A reserved commit time and, once known, the way it was resolved. -/
@[ext] structure CommitTimeReservation where
  commitTime : TransactionTime
  resolution : Option CommitResolution
deriving DecidableEq, Repr

end DtgProxy.Transaction

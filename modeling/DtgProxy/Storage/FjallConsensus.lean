import DtgProxy.Lib.Segment
import DtgProxy.Storage.Consensus
import DtgProxy.Storage.Fjall

/-! # The consensus log in Fjall

The log keyspace holds the stored form of each entry under its index; the keys
are big-endian words, so they are visited in ascending order.  Appending compares
the supplied entries with the stored ones and writes from the first that differs.
-/
namespace DtgProxy.Storage

open Kernel Lib Lib.Segment

def u64Max : ℕ := 256 ^ 8 - 1

def saturatingAdd (a b : ℕ) : ℕ := min (a + b) u64Max

theorem saturatingAdd_one_of_lt {a b : ℕ} (h : b < 256 ^ 8) (hab : b = a + 1) :
    b = saturatingAdd a 1 := by
  have hle : a + 1 ≤ u64Max := by
    rw [u64Max]
    omega
  rw [saturatingAdd, Nat.min_eq_left hle, hab]

theorem lt_saturatingAdd_one_iff {a b : ℕ} (h : b < 256 ^ 8) :
    saturatingAdd a 1 < b ↔ a + 1 < b := by
  rw [saturatingAdd, u64Max]
  omega

/-- The parts of a consensus store the log operations use. -/
@[ext] structure FjallConsensusStore where
  binding : ReplicaBinding
  owner : ReplicaBinding
  raftLog : OrderedMap ℕ (List UInt8)

namespace FjallConsensusStore

/-- A store over an empty namespace, which takes the binding as its owner. -/
def create (binding : ReplicaBinding) : FjallConsensusStore := ⟨binding, binding, ∅⟩

def openNew [Blake3] (binding : ReplicaBinding) : Except StorageError FjallConsensusStore :=
  if matchesEmbedded .fjall binding then .ok (create binding)
  else
    .error (.invalidBinding
      "binding does not match the supported Fjall backend class and capability floor")

def ensureBinding (store : FjallConsensusStore) : Except StorageError Unit :=
  if store.owner = store.binding then .ok ()
  else .error (.namespaceOwnerMismatch store.owner store.binding)

def loadEntry (entries : OrderedMap ℕ ConsensusEntry) (item : ℕ × List UInt8) :
    Except StorageError (OrderedMap ℕ ConsensusEntry) := do
  let entry ← decodeConsensusEntry item.2
  if entry.index ≠ item.1 ∨ entries.contains item.1 then
    .error (.invalidConsensus "stored consensus log identity is malformed")
  else .ok (entries.insert item.1 entry)

def loadLog (store : FjallConsensusStore) :
    Except StorageError (OrderedMap ℕ ConsensusEntry) := do
  let entries ← store.raftLog.toList.foldlM loadEntry ∅
  if (windows entries.keys).any (fun (left, right) => right ≠ saturatingAdd left 1) then
    .error (.invalidConsensus "stored consensus log is discontiguous")
  else .ok entries

/-- The index of a supplied entry that is not stored as it is. -/
def conflictAt (stored : OrderedMap ℕ ConsensusEntry) (entry : ConsensusEntry) : Option ℕ :=
  if stored[entry.index]? = some entry then none else some entry.index

/-- The one write of an append: what is stored from the conflict on is removed and
the supplied entries from there on are put in its place. -/
def replaceFrom (log : OrderedMap ℕ (List UInt8)) (stored : OrderedMap ℕ ConsensusEntry)
    (entries : List ConsensusEntry) (conflict : ℕ) : OrderedMap ℕ (List UInt8) :=
  (entries.filter (fun entry => conflict ≤ entry.index)).foldl
    (fun log entry => log.insert entry.index (encodeConsensusEntry entry))
    ((stored.keys.filter (fun index => conflict ≤ index)).foldl
      (fun log index => log.erase index) log)

/-- The supplied entries start outside what the stored log can be continued with. -/
def startsOutside (stored : OrderedMap ℕ ConsensusEntry) (start : ℕ) : Bool :=
  match stored.keys.head?, stored.keys.getLast? with
  | some first, some last => start < first || saturatingAdd last 1 < start
  | _, _ => false

def append (store : FjallConsensusStore) (entries : List ConsensusEntry) :
    Except StorageError FjallConsensusStore := do
  store.ensureBinding
  if (windows entries).any (fun (left, right) => right.index ≠ saturatingAdd left.index 1) then
    .error (.invalidConsensus "consensus append entries must be contiguous")
  else
    match entries.head? with
    | none => .ok store
    | some first => do
      let stored ← store.loadLog
      if startsOutside stored first.index then
        .error (.invalidConsensus "consensus append would create a discontiguous log")
      else
        match entries.findSome? (conflictAt stored) with
        | none => .ok store
        | some conflict =>
          if stored.keys.getLast?.any (fun last => saturatingAdd last 1 < conflict) then
            .error (.invalidConsensus "consensus append would create a log gap")
          else .ok { store with raftLog := replaceFrom store.raftLog stored entries conflict }

/-- The loop of `entries` over the stored items of the range. -/
def readItems (maxBytes : ℕ) : ℕ → Option ℕ → List (ℕ × List UInt8) →
    Except StorageError (List ConsensusEntry)
  | _, _, [] => .ok []
  | used, previous, (index, value) :: items =>
    if maxBytes < saturatingAdd used value.length then .ok []
    else do
      let entry ← decodeConsensusEntry value
      if entry.index ≠ index ∨ previous.any (fun previous => index ≠ previous + 1) then
        .error (.invalidConsensus "stored consensus log is malformed or discontiguous")
      else
        let rows ← readItems maxBytes (used + value.length) (some index) items
        .ok (entry :: rows)

def entries (store : FjallConsensusStore) (low high maxBytes : ℕ) :
    Except StorageError (List ConsensusEntry) := do
  store.ensureBinding
  if high < low ∨ maxBytes = 0 then
    .error (.invalidConsensus "invalid consensus entry range")
  else
    readItems maxBytes 0 none
      (store.raftLog.toList.filter (fun item => low ≤ item.1 ∧ item.1 < high))

def truncateSuffix (store : FjallConsensusStore) (fromIndex : ℕ) :
    Except StorageError FjallConsensusStore := do
  store.ensureBinding
  if fromIndex = 0 then
    .error (.invalidConsensus "consensus truncation index must be nonzero")
  else
    .ok { store with
      raftLog := (store.raftLog.keys.filter (fun index => fromIndex ≤ index)).foldl
        (fun log index => log.erase index) store.raftLog }

inductive LogOp where
  | append (entries : List ConsensusEntry)
  | truncateSuffix (fromIndex : ℕ)
  | entries (low high maxBytes : ℕ)

/-- The store after one operation.  Each write is one atomic batch, so an operation
that fails leaves the store as it was. -/
def step (store : FjallConsensusStore) : LogOp → FjallConsensusStore
  | .append entries => (store.append entries).toOption.getD store
  | .truncateSuffix fromIndex => (store.truncateSuffix fromIndex).toOption.getD store
  | .entries _ _ _ => store

/-- The store after a sequence of operations on a new one. -/
def run (binding : ReplicaBinding) (ops : List LogOp) : FjallConsensusStore :=
  ops.foldl step (create binding)

end FjallConsensusStore

end DtgProxy.Storage

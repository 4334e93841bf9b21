import DtgProxy.Lib.Hex
import DtgProxy.Shard.Command

/-! # Names of reserved metadata

Everything the shard remembers besides the graph is metadata under names that
start with `dtg.`.  Each kind of record has its own name, and records kept per
transaction carry its identifier in hexadecimal.  Distinct keys have distinct
names, and no client commit writes one of them.
-/
namespace DtgProxy.Shard

open Kernel Lib Storage

def homeDecisionMetadataBase : String := "dtg.transaction_home_decision.v2/"
def singleShardTransactionMetadataName : String := "dtg.single_shard_transaction.v1/"
def activeTransactionIntentsMetadataName : String := "dtg.transaction_active_intents.v1"
def transactionStateMetadataBase : String := "dtg.transaction_state.v1/"

/-- A name followed by the thirty-two hexadecimal digits of a transaction. -/
def transactionMetadataName (base : String) (transactionId : TransactionId) : String :=
  base ++ String.ofList (Hex.format 32 transactionId.get)

def corruptIntentHistory (message : String) : ShardError := .corruptIntentHistory message

/-- Reads the transaction out of a name.  Hexadecimal digits are ASCII, so
counting characters refuses the same names as counting bytes. -/
def transactionIdFromMetadataName (name base description : String) :
    Except ShardError TransactionId :=
  if base.toList.isPrefixOf name.toList then
    let suffix := name.toList.drop base.toList.length
    if suffix.length ≠ 32 then
      .error (corruptIntentHistory (description ++ " metadata name is malformed"))
    else
      match Hex.parse suffix with
      | none => .error (corruptIntentHistory (description ++ " metadata name is malformed"))
      | some value =>
        match Identifier.new value with
        | some id => .ok id
        | none => .error (.ofKernel .zeroIdentifier)
  else .error (corruptIntentHistory ("metadata is not a " ++ description ++ " record"))

theorem TransactionId.lt_hex (id : TransactionId) : id.get < 16 ^ 32 :=
  lt_of_lt_of_eq id.inRange (by norm_num [IdKind.bytes])

theorem transactionIdFromMetadataName_name (base description : String) (id : TransactionId) :
    transactionIdFromMetadataName (transactionMetadataName base id) base description = .ok id := by
  have hparse : Hex.parse (Hex.format 32 id.get) = some id.get :=
    Hex.parse_format (by decide) (TransactionId.lt_hex id)
  unfold transactionIdFromMetadataName transactionMetadataName
  simp [hparse, Identifier.new_get]

theorem transactionMetadataName_inj {base : String} {id id' : TransactionId}
    (h : transactionMetadataName base id = transactionMetadataName base id') : id = id' := by
  have hid := transactionIdFromMetadataName_name base "" id
  rw [h, transactionIdFromMetadataName_name] at hid
  exact (Except.ok.inj hid).symm

/-! ## Keys -/

/-- The records the shard keeps. -/
inductive ReservedKey where
  | transactionIntent
  | transactionState (id : TransactionId)
  | activeIntents
  | singleShardTransaction (id : TransactionId)
  | homeDecision (id : TransactionId)
  | closedTimestamp
  | installedSnapshot
  | migrationPhase
  | raftNoop
  | raftRejection
deriving DecidableEq

namespace ReservedKey

def name : ReservedKey → String
  | .transactionIntent => transactionIntentMetadataName
  | .transactionState id => transactionMetadataName transactionStateMetadataBase id
  | .activeIntents => activeTransactionIntentsMetadataName
  | .singleShardTransaction id => transactionMetadataName singleShardTransactionMetadataName id
  | .homeDecision id => transactionMetadataName homeDecisionMetadataBase id
  | .closedTimestamp => closedTimestampMetadataName
  | .installedSnapshot => "dtg.installed_snapshot"
  | .migrationPhase => "dtg.migration_phase"
  | .raftNoop => "dtg.raft_noop"
  | .raftRejection => "dtg.raft_rejection"

def kind : ReservedKey → Fin 10
  | .transactionIntent => 0
  | .transactionState _ => 1
  | .activeIntents => 2
  | .singleShardTransaction _ => 3
  | .homeDecision _ => 4
  | .closedTimestamp => 5
  | .installedSnapshot => 6
  | .migrationPhase => 7
  | .raftNoop => 8
  | .raftRejection => 9

/-- The first seventeen characters of the names of a kind. -/
def stem : Fin 10 → List Char
  | 0 => "dtg.transaction_i".toList
  | 1 => "dtg.transaction_s".toList
  | 2 => "dtg.transaction_a".toList
  | 3 => "dtg.single_shard_".toList
  | 4 => "dtg.transaction_h".toList
  | 5 => "dtg.closed_timest".toList
  | 6 => "dtg.installed_sna".toList
  | 7 => "dtg.migration_pha".toList
  | 8 => "dtg.raft_noop".toList
  | 9 => "dtg.raft_rejectio".toList

theorem stem_injective : Function.Injective stem := by
  have h : ∀ i j, stem i = stem j → i = j := by decide +kernel
  exact h

theorem stem_reserved (i : Fin 10) : ∃ rest, stem i = "dtg.".toList ++ rest := by
  refine ⟨(stem i).drop 4, ?_⟩
  have h : ∀ i, stem i = "dtg.".toList ++ (stem i).drop 4 := by decide +kernel
  exact h i

theorem take_transactionMetadataName {base : String} {id : TransactionId}
    (h : 17 ≤ base.toList.length) :
    (transactionMetadataName base id).toList.take 17 = base.toList.take 17 := by
  rw [transactionMetadataName, String.toList_append, List.take_append_of_le_length h]

theorem take_name (key : ReservedKey) : key.name.toList.take 17 = stem key.kind := by
  cases key with
  | transactionState | singleShardTransaction
  | homeDecision => exact (take_transactionMetadataName (by decide)).trans rfl
  | _ => decide

theorem name_injective : Function.Injective name := by
  intro key key' h
  have hkind : key.kind = key'.kind := by
    apply stem_injective
    rw [← take_name, ← take_name, h]
  cases key <;> cases key' <;> first
    | rfl
    | exact congrArg _ (transactionMetadataName_inj h)
    | cases hkind

@[simp] theorem name_inj {key key' : ReservedKey} : key.name = key'.name ↔ key = key' :=
  name_injective.eq_iff

theorem reservedName_name (key : ReservedKey) : reservedName key.name = true := by
  obtain ⟨rest, hrest⟩ := stem_reserved key.kind
  have hname : key.name.toList = "dtg.".toList ++ (rest ++ key.name.toList.drop 17) := by
    rw [← List.append_assoc, ← hrest, ← take_name, List.take_append_drop]
  rw [reservedName, hname, List.isPrefixOf_iff_prefix]
  exact List.prefix_append _ _

end ReservedKey

end DtgProxy.Shard

import DtgProxy.Meta.Wire

/-! # The Meta process over its log

A call is committed to the log before the catalog or the action ledger decides
on it.  A call they refuse reports the error and leaves them as they were, but its
entry stays in the log, and opening the process again applies every entry.
-/
namespace DtgProxy.Meta

open Kernel Lib Storage Control

@[ext] structure MetaCommittedEntry where
  proposalId : ℕ
  payload : List UInt8
deriving DecidableEq

/-- What a call reports. -/
inductive Answer where
  | version (version : UInt64)
  | record (record : ActionRecord)

def Answer.isVersion : Answer → Bool
  | .version _ => true
  | .record _ => false

variable [Blake3]

/-- The kind of answer a caller waits for. -/
def AuthorityCommand.expects : AuthorityCommand → Answer → Bool
  | .catalog _, answer => answer.isVersion
  | .action _, answer => !answer.isVersion

/-- What replaying the log builds: the catalog, the commands it accepted and the
action ledger. -/
@[ext] structure Authority where
  catalog : CatalogState
  commands : List CatalogCommand
  actions : ControlActionLedger

namespace Authority

def new : Authority := ⟨.new, [], .new⟩

def apply (authority : Authority) : AuthorityCommand → Except ControlError (Answer × Authority)
  | .catalog command => do
    let catalog ← authority.catalog.apply command
    .ok (.version catalog.version,
      { authority with catalog, commands := authority.commands ++ [command] })
  | .action command => do
    let (record, actions) ← authority.actions.apply command
    .ok (.record record, { authority with actions })

/-- The catalog or the ledger takes the command. -/
def accepts (authority : Authority) (command : AuthorityCommand) : Bool :=
  (authority.apply command).isOk

end Authority

/-- The live state; watchers see the revision. -/
@[ext] structure MetaCore where
  authority : Authority
  catalogRevision : UInt64

/-- A single-node process: the log in its durable store and its live state. -/
@[ext] structure MetaProcess where
  log : List MetaCommittedEntry
  core : MetaCore

def maxMetaCommandBytes : ℕ := 16 * 1024 * 1024

def catalogProposalId (payload : List UInt8) : ℕ :=
  max (BigEndian.decode ((Blake3.hash payload).bytes.take 16)) 1

variable [SerdeJson]

/-- The entry a call has committed, unless it is refused before. -/
def proposal (command : AuthorityCommand) : Except MetaProcessError MetaCommittedEntry := do
  let payload ← encodeAuthorityCommand command
  if payload = [] ∨ maxMetaCommandBytes < payload.length then
    .error (.consensus "Meta proposal identity or payload is invalid")
  else .ok ⟨catalogProposalId payload, payload⟩

namespace MetaCore

/-- Applies a committed entry; a catalog entry also publishes the new version. -/
def applyEntry (core : MetaCore) (entry : MetaCommittedEntry) :
    MetaCore × Except MetaProcessError Answer :=
  match decodeAuthorityCommand entry.payload with
  | .error e => (core, .error e)
  | .ok command =>
    match core.authority.apply command with
    | .error e => (core, .error (.ofControl e))
    | .ok (.version version, authority) => (⟨authority, version⟩, .ok (.version version))
    | .ok (.record record, authority) => ({ core with authority }, .ok (.record record))

/-- The loop over the entries a proposal committed.  The answer is that of the
caller's own entry, if it is of the `kind` the caller waits for. -/
def applyCommitted (kind : Answer → Bool) (own : ℕ) (core : MetaCore) (result : Option Answer) :
    List MetaCommittedEntry → MetaCore × Except MetaProcessError Answer
  | [] => (core, match result with
    | some answer => .ok answer
    | none => .error .proposalPending)
  | entry :: entries =>
    match core.applyEntry entry with
    | (core, .error e) => (core, .error e)
    | (core, .ok answer) =>
      applyCommitted kind own core
        (if entry.proposalId = own ∧ kind answer = true then some answer else result) entries

end MetaCore

namespace MetaProcess

/-- A call on a single node: its own entry is the only one it commits. -/
def call (process : MetaProcess) (command : AuthorityCommand) :
    MetaProcess × Except MetaProcessError Answer :=
  match proposal command with
  | .error e => (process, .error e)
  | .ok entry =>
    let (core, answer) :=
      process.core.applyCommitted command.expects entry.proposalId none [entry]
    (⟨process.log ++ [entry], core⟩, answer)

def propose (process : MetaProcess) (command : CatalogCommand) :
    MetaProcess × Except MetaProcessError Answer :=
  process.call (.catalog command)

def applyActionCommand (process : MetaProcess) (command : ActionCommand) :
    MetaProcess × Except MetaProcessError Answer :=
  process.call (.action command)

def run (process : MetaProcess) (calls : List AuthorityCommand) : MetaProcess :=
  calls.foldl (fun process command => (process.call command).1) process

/-- Applies a recovered entry; an error here fails the opening. -/
def replayEntry (authority : Authority) (entry : MetaCommittedEntry) :
    Except MetaProcessError Authority := do
  let command ← decodeAuthorityCommand entry.payload
  let (_, authority) ← (authority.apply command).mapError .ofControl
  .ok authority

def openFrom (log : List MetaCommittedEntry) : Except MetaProcessError MetaProcess := do
  let authority ← log.foldlM replayEntry .new
  .ok ⟨log, ⟨authority, authority.catalog.version⟩⟩

end MetaProcess

/-! ## One call -/

variable {command : AuthorityCommand}

theorem decode_proposal {entry : MetaCommittedEntry} (h : proposal command = .ok entry) :
    decodeAuthorityCommand entry.payload = .ok command := by
  obtain ⟨payload, hpayload, hentry⟩ := Result.bind_eq_ok.mp h
  split_ifs at hentry
  cases hentry
  exact decodeAuthorityCommand_encode hpayload

omit [SerdeJson] in
/-- What an accepted command answers, and which version a catalog command leaves. -/
theorem Authority.apply_cases {authority authority' : Authority} {answer : Answer}
    (h : authority.apply command = .ok (answer, authority')) :
    (∃ catalogCommand, command = .catalog catalogCommand ∧
      answer = .version authority'.catalog.version) ∨
    (∃ actionCommand record, command = .action actionCommand ∧ answer = .record record ∧
      authority'.catalog = authority.catalog) := by
  cases command with
  | catalog command =>
    obtain ⟨catalog, -, h⟩ := Result.bind_eq_ok.mp h
    cases h
    exact .inl ⟨command, rfl, rfl⟩
  | action command =>
    obtain ⟨⟨record, actions⟩, -, h⟩ := Result.bind_eq_ok.mp h
    cases h
    exact .inr ⟨command, record, rfl, rfl, rfl⟩

namespace MetaProcess

variable {process : MetaProcess} {command : AuthorityCommand} {entry : MetaCommittedEntry}
variable {log : List MetaCommittedEntry}

theorem call_of_refused {e : MetaProcessError} (h : proposal command = .error e) :
    process.call command = (process, .error e) := by
  simp only [call, h]

/-- A call the authority refuses leaves only its entry. -/
theorem call_of_rejected {e : ControlError} (h : proposal command = .ok entry)
    (happly : process.core.authority.apply command = .error e) :
    process.call command = (⟨process.log ++ [entry], process.core⟩, .error (.ofControl e)) := by
  simp only [call, h, MetaCore.applyCommitted, MetaCore.applyEntry, decode_proposal h, happly]

/-- A call the authority takes publishes its version if it has one. -/
theorem call_of_accepted {answer : Answer} {authority : Authority}
    (h : proposal command = .ok entry)
    (happly : process.core.authority.apply command = .ok (answer, authority))
    (hrevision : process.core.catalogRevision = process.core.authority.catalog.version) :
    process.call command =
      (⟨process.log ++ [entry], ⟨authority, authority.catalog.version⟩⟩, .ok answer) := by
  obtain ⟨catalogCommand, rfl, rfl⟩ | ⟨actionCommand, record, rfl, rfl, hcatalog⟩ :=
    Authority.apply_cases happly
  · simp only [call, h, MetaCore.applyCommitted, MetaCore.applyEntry, decode_proposal h, happly,
      AuthorityCommand.expects, Answer.isVersion, and_self, if_true]
  · simp only [call, h, MetaCore.applyCommitted, MetaCore.applyEntry, decode_proposal h, happly,
      AuthorityCommand.expects, Answer.isVersion, Bool.not_false, and_self, if_true, hcatalog,
      hrevision]

/-! ## Opening again -/

theorem openFrom_eq_ok :
    openFrom log = .ok process ↔ process.log = log ∧
      log.foldlM replayEntry .new = .ok process.core.authority ∧
      process.core.catalogRevision = process.core.authority.catalog.version := by
  rw [openFrom, Result.bind_eq_ok]
  constructor
  · rintro ⟨authority, hfold, h⟩
    cases h
    exact ⟨rfl, hfold, rfl⟩
  · rintro ⟨rfl, hfold, hrevision⟩
    refine ⟨_, hfold, ?_⟩
    rw [← hrevision]

theorem replayEntry_proposal (h : proposal command = .ok entry) (authority : Authority) :
    replayEntry authority entry =
      ((authority.apply command).mapError .ofControl).map Prod.snd := by
  rw [replayEntry, decode_proposal h]
  change ((authority.apply command).mapError _ >>= fun pair => Except.ok pair.2) = _
  cases authority.apply command <;> rfl

/-- The process is the one its own log opens to. -/
def Current (process : MetaProcess) : Prop := openFrom process.log = .ok process

theorem Current.call (h : process.Current)
    (haccepted : (proposal command).isOk = true → process.core.authority.accepts command = true) :
    (process.call command).1.Current := by
  cases hproposal : proposal command with
  | error =>
    rw [call_of_refused hproposal]
    exact h
  | ok entry =>
    have haccepts := haccepted (by rw [hproposal]; rfl)
    obtain ⟨-, hfold, hrevision⟩ := openFrom_eq_ok.mp h
    cases happly : process.core.authority.apply command with
    | error =>
      rw [Authority.accepts, happly] at haccepts
      cases haccepts
    | ok pair =>
      obtain ⟨answer, authority⟩ := pair
      rw [call_of_accepted hproposal happly hrevision]
      refine openFrom_eq_ok.mpr ⟨rfl, ?_, rfl⟩
      rw [List.foldlM_append, hfold]
      change replayEntry process.core.authority entry >>= pure = _
      rw [replayEntry_proposal hproposal, happly]
      rfl

theorem log_prefix_call (process : MetaProcess) (command : AuthorityCommand) :
    process.log <+: (process.call command).1.log := by
  unfold MetaProcess.call
  split
  · exact List.prefix_refl _
  · exact List.prefix_append _ _

theorem log_prefix_run (process : MetaProcess) (calls : List AuthorityCommand) :
    process.log <+: (process.run calls).log := by
  induction calls generalizing process with
  | nil => exact List.prefix_refl _
  | cons command calls ih => exact (log_prefix_call process command).trans (ih _)

/-- A log that opens has only prefixes that open. -/
theorem foldlM_of_extends {log' : List MetaCommittedEntry} {authority : Authority}
    (hextends : log <+: log') (h : log'.foldlM replayEntry .new = .ok authority) :
    ∃ before, log.foldlM replayEntry .new = .ok before := by
  obtain ⟨rest, rfl⟩ := hextends
  rw [List.foldlM_append] at h
  obtain ⟨before, hbefore, -⟩ := Result.bind_eq_ok.mp h
  exact ⟨before, hbefore⟩

/-- A rejected entry fails the replay with the error its caller got. -/
theorem Current.foldlM_of_rejected {e : ControlError} (h : process.Current)
    (hentry : proposal command = .ok entry)
    (happly : process.core.authority.apply command = .error e) :
    (process.call command).1.log.foldlM replayEntry .new = .error (.ofControl e) := by
  rw [call_of_rejected hentry happly, List.foldlM_append, (openFrom_eq_ok.mp h).2.1]
  change replayEntry process.core.authority entry >>= pure = _
  rw [replayEntry_proposal hentry, happly]
  rfl

/-- It fails every opening from then on. -/
theorem Current.not_open_of_rejected (h : process.Current)
    (hproposal : (proposal command).isOk = true)
    (hrejected : process.core.authority.accepts command = false)
    (hlog : (process.call command).1.log <+: log) (reopened : MetaProcess) :
    openFrom log ≠ .ok reopened := by
  intro hopen
  obtain ⟨-, hfold, -⟩ := openFrom_eq_ok.mp hopen
  obtain ⟨before, hbefore⟩ := foldlM_of_extends hlog hfold
  cases hentry : proposal command with
  | error =>
    rw [hentry] at hproposal
    cases hproposal
  | ok =>
    cases happly : process.core.authority.apply command with
    | ok =>
      rw [Authority.accepts, happly] at hrejected
      cases hrejected
    | error =>
      rw [h.foldlM_of_rejected hentry happly] at hbefore
      cases hbefore

/-- Every call that is committed is accepted when it is made. -/
def AllAccepted (process : MetaProcess) : List AuthorityCommand → Prop
  | [] => True
  | command :: calls =>
    ((proposal command).isOk = true → process.core.authority.accepts command = true) ∧
      AllAccepted (process.call command).1 calls

/-- After any calls, opening the log again yields the running process exactly when
every committed call was accepted. -/
theorem openFrom_run_iff (process : MetaProcess) (hopened : openFrom process.log = .ok process)
    (calls : List AuthorityCommand) :
    openFrom (process.run calls).log = .ok (process.run calls) ↔ process.AllAccepted calls := by
  induction calls generalizing process with
  | nil => exact ⟨fun _ => trivial, fun _ => hopened⟩
  | cons command calls ih =>
    by_cases hstep : (proposal command).isOk = true →
        process.core.authority.accepts command = true
    · have hnext : (process.call command).1.Current := Current.call hopened hstep
      exact (ih _ hnext).trans ⟨fun h => ⟨hstep, h⟩, fun h => h.2⟩
    · refine ⟨fun h => absurd h ?_, fun h => absurd h.1 hstep⟩
      push Not at hstep
      exact Current.not_open_of_rejected hopened hstep.1 (Bool.eq_false_iff.mpr hstep.2)
        (log_prefix_run _ calls) _

/-! ## Two runs on fixed inputs -/

def fresh : MetaProcess := ⟨[], ⟨.new, 0⟩⟩

end MetaProcess

section Samples

def sampleClass : BackendClass := .fjall

def sampleBinding : BuiltBinding :=
  letI := foldHash
  ⟨{ clusterId := 1
     graphId := 1
     shardId := 1
     placementEpoch := 1
     replicaId := 1
     backendGeneration := 1
     backendClassDigest := sampleClass.digest
     providerKind := .fjall
     contractVersion := 1
     layoutVersion := 1
     capabilityDigest := sampleClass.requiredCapabilities.digest
     namespaceId := "namespace"
     endpointProfileRef := "profile"
     credentialRef := "secret://replica"
     role := .active }, by decide +kernel⟩

def samplePlacement : @ShardPlacement foldHash :=
  letI := foldHash
  { graphId := 1
    shardId := 1
    placementEpoch := 1
    activeGeneration := 1
    backendClass := sampleClass
    replicas := [⟨sampleBinding, sampleClass, by decide +kernel⟩] }

/-- The same placement at the version the caller expects. -/
def samplePut (expectedVersion : UInt64) : @CatalogCommand foldHash :=
  letI := foldHash
  .putPlacement expectedVersion samplePlacement

def sampleAction : ReconcileAction :=
  .startLearner ⟨1, 1, 1, 1, 1⟩

/-- Writes the sample commands in a few bytes. -/
@[reducible] def sampleJson : SerdeJson :=
  letI := foldHash
  tableJson [.fromCommand (samplePut 0), .fromCommand (samplePut 1)]

/-- A placement, an action, the placement again and a claim of the action. -/
def sampleCalls : List (@AuthorityCommand foldHash) :=
  letI := foldHash
  [.catalog (samplePut 0), .action (.enqueue 1 sampleAction), .catalog (samplePut 1),
    .action (.claim (actionId 1 sampleAction) "worker" 10 5)]

end Samples

namespace MetaProcess

omit [Blake3] [SerdeJson] in
theorem openFrom_run_sampleCalls :
    letI := foldHash
    letI := sampleJson
    openFrom ((fresh.run sampleCalls).log) = .ok (fresh.run sampleCalls) := by
  let _ := foldHash
  let _ := sampleJson
  refine (openFrom_run_iff fresh rfl sampleCalls).mpr ⟨fun _ => ?_, fun _ => ?_, fun _ => ?_,
    fun _ => ?_, trivial⟩ <;> decide +kernel

omit [Blake3] [SerdeJson] in
/-- A placement whose expected version is stale is refused, changes nothing and
fails the next opening. -/
theorem openFrom_propose_stale :
    letI := foldHash
    letI := sampleJson
    (fresh.propose (samplePut 1)).1.core = fresh.core ∧
    openFrom (fresh.propose (samplePut 1)).1.log = .error (.ofControl (.staleCatalog 1 0)) := by
  let _ := foldHash
  let _ := sampleJson
  obtain ⟨entry, hentry⟩ : ∃ entry, proposal (.catalog (samplePut 1)) = .ok entry := ⟨_, rfl⟩
  have happly : fresh.core.authority.apply (.catalog (samplePut 1)) =
      .error (.staleCatalog 1 0) := rfl
  have hfresh : fresh.Current := rfl
  refine ⟨?_, ?_⟩
  · rw [propose, call_of_rejected hentry happly]
  · rw [openFrom, propose, hfresh.foldlM_of_rejected hentry happly]
    rfl

end MetaProcess

end DtgProxy.Meta

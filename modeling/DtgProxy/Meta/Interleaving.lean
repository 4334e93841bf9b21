import DtgProxy.Meta.Process

/-! # Concurrent calls on the Meta process

A call commits its entry under the lock of the consensus node, applies it under
the lock of the catalog and the ledger, appends a catalog command to the command
list under the lock of the list, and publishes the new revision.  Other calls may
run between any two of these steps.
-/
namespace DtgProxy.Meta

open Kernel Lib Storage Control

variable [Blake3]

/-- Where a call stands. -/
inductive Phase where
  | waiting
  | committed (entry : MetaCommittedEntry)
  | applied (command : CatalogCommand) (version : UInt64)
  | listed (version : UInt64)
  | returned (answer : Except MetaProcessError Answer)

/-- The call's entry is in the log and the call has not returned. -/
def Phase.inFlight : Phase → Bool
  | .committed _ | .applied _ _ | .listed _ => true
  | .waiting | .returned _ => false

def Phase.isWaiting : Phase → Bool
  | .waiting => true
  | _ => false

/-- A call with the position of its entry in the log, once it has one. -/
@[ext] structure Call where
  command : AuthorityCommand
  position : Option ℕ
  phase : Phase

/-- The process, every revision its watchers were sent, and all calls so far. -/
@[ext] structure MetaSystem where
  process : MetaProcess
  published : List UInt64
  calls : List Call

/-- A new call begins, or a call takes its next step. -/
inductive Action where
  | invoke (command : AuthorityCommand)
  | advance (index : ℕ)

/-- The answer to a caller for its own entry. -/
def ownAnswer (command : AuthorityCommand) (answer : Answer) : Except MetaProcessError Answer :=
  if command.expects answer then .ok answer else .error .proposalPending

namespace MetaSystem

def start (process : MetaProcess) : MetaSystem :=
  ⟨process, [process.core.catalogRevision], []⟩

def log (system : MetaSystem) : List MetaCommittedEntry := system.process.log

def authority (system : MetaSystem) : Authority := system.process.core.authority

def revision (system : MetaSystem) : UInt64 := system.process.core.catalogRevision

def withAuthority (system : MetaSystem) (authority : Authority) : MetaSystem :=
  { system with process := ⟨system.process.log, ⟨authority, system.process.core.catalogRevision⟩⟩ }

def moveTo (system : MetaSystem) (index : ℕ) (call : Call) (phase : Phase) : MetaSystem :=
  { system with calls := system.calls.set index { call with phase } }

variable [SerdeJson]

/-- Under the lock of the consensus node. -/
def commit (system : MetaSystem) (index : ℕ) (call : Call) : MetaSystem :=
  match proposal call.command with
  | .error e => system.moveTo index call (.returned (.error e))
  | .ok entry =>
    { system with
      process := ⟨system.process.log ++ [entry], system.process.core⟩
      calls := system.calls.set index
        ⟨call.command, some system.process.log.length, .committed entry⟩ }

/-- Under the lock of the catalog and the ledger. -/
def apply (system : MetaSystem) (index : ℕ) (call : Call) (entry : MetaCommittedEntry) :
    MetaSystem :=
  match decodeAuthorityCommand entry.payload with
  | .error e => system.moveTo index call (.returned (.error e))
  | .ok (.catalog command) =>
    match system.authority.catalog.apply command with
    | .error e => system.moveTo index call (.returned (.error (.ofControl e)))
    | .ok catalog =>
      (system.withAuthority { system.authority with catalog }).moveTo index call
        (.applied command catalog.version)
  | .ok (.action command) =>
    match system.authority.actions.apply command with
    | .error e => system.moveTo index call (.returned (.error (.ofControl e)))
    | .ok (record, actions) =>
      (system.withAuthority { system.authority with actions }).moveTo index call
        (.returned (ownAnswer call.command (.record record)))

/-- Under the lock of the command list. -/
def append (system : MetaSystem) (index : ℕ) (call : Call) (command : CatalogCommand)
    (version : UInt64) : MetaSystem :=
  (system.withAuthority
    { system.authority with commands := system.authority.commands ++ [command] }).moveTo index call
      (.listed version)

/-- The watchers get the version the call was answered with. -/
def publish (system : MetaSystem) (index : ℕ) (call : Call) (version : UInt64) : MetaSystem where
  process := ⟨system.process.log, ⟨system.authority, version⟩⟩
  published := system.published ++ [version]
  calls := system.calls.set index
    { call with phase := .returned (ownAnswer call.command (.version version)) }

def step (system : MetaSystem) : Action → MetaSystem
  | .invoke command => { system with calls := system.calls ++ [⟨command, none, .waiting⟩] }
  | .advance index =>
    match system.calls[index]? with
    | none => system
    | some call =>
      match call.phase with
      | .waiting => system.commit index call
      | .committed entry => system.apply index call entry
      | .applied command version => system.append index call command version
      | .listed version => system.publish index call version
      | .returned _ => system

def run (system : MetaSystem) (schedule : List Action) : MetaSystem :=
  schedule.foldl step system

/-- No call has an entry in the log and has not returned. -/
def Quiet (system : MetaSystem) : Prop :=
  ∀ call ∈ system.calls, call.phase.inFlight = false

instance (system : MetaSystem) : Decidable system.Quiet :=
  inferInstanceAs (Decidable (∀ call ∈ system.calls, call.phase.inFlight = false))

/-- The next step of the call puts its entry into the log. -/
def commitsAt (system : MetaSystem) (index : ℕ) : Bool :=
  system.calls[index]?.any fun call => call.phase.isWaiting && (proposal call.command).isOk

/-- A call commits its entry only while no other call is in flight. -/
def CommitsAlone (system : MetaSystem) : Action → Prop
  | .invoke _ => True
  | .advance index => system.commitsAt index = true → system.Quiet

instance (system : MetaSystem) : (action : Action) → Decidable (system.CommitsAlone action)
  | .invoke _ => .isTrue trivial
  | .advance index => inferInstanceAs (Decidable (system.commitsAt index = true → system.Quiet))

def Serialized (system : MetaSystem) : List Action → Prop
  | [] => True
  | action :: schedule => system.CommitsAlone action ∧ Serialized (system.step action) schedule

instance decidableSerialized (system : MetaSystem) :
    (schedule : List Action) → Decidable (system.Serialized schedule)
  | [] => .isTrue trivial
  | action :: schedule =>
    have := decidableSerialized (system.step action) schedule
    inferInstanceAs (Decidable (system.CommitsAlone action ∧
      (system.step action).Serialized schedule))

end MetaSystem

variable [SerdeJson]

/-- What an entry does to the authority; a rejected entry does nothing. -/
def effect (authority : Authority) (entry : MetaCommittedEntry) : Authority :=
  match MetaProcess.replayEntry authority entry with
  | .ok next => next
  | .error _ => authority

/-- The authority once every entry of a log has taken effect in order. -/
def effects (log : List MetaCommittedEntry) : Authority := log.foldl effect .new

theorem effects_concat (log : List MetaCommittedEntry) (entry : MetaCommittedEntry) :
    effects (log ++ [entry]) = effect (effects log) entry :=
  List.foldl_concat _ _ _ _

variable {command : AuthorityCommand} {entry : MetaCommittedEntry}

theorem effect_of_ok {authority next : Authority} {answer : Answer}
    (hentry : proposal command = .ok entry) (h : authority.apply command = .ok (answer, next)) :
    effect authority entry = next := by
  rw [effect, MetaProcess.replayEntry_proposal hentry, h]
  rfl

theorem effect_of_error {authority : Authority} {e : ControlError}
    (hentry : proposal command = .ok entry) (h : authority.apply command = .error e) :
    effect authority entry = authority := by
  rw [effect, MetaProcess.replayEntry_proposal hentry, h]
  rfl

variable {log : List MetaCommittedEntry}

/-- A log that opens takes effect as it is replayed. -/
theorem effects_of_open {process : MetaProcess} (h : MetaProcess.openFrom log = .ok process) :
    effects log = process.core.authority := by
  suffices hall : ∀ (log : List MetaCommittedEntry) (start last : Authority),
      log.foldlM MetaProcess.replayEntry start = .ok last → log.foldl effect start = last from
    hall log _ _ (MetaProcess.openFrom_eq_ok.mp h).2.1
  intro log
  induction log with
  | nil =>
    intro start last hstart
    exact Except.ok.inj hstart
  | cons entry log ih =>
    intro start last hstart
    obtain ⟨next, hnext, hrest⟩ := Result.bind_eq_ok.mp hstart
    have heffect : effect start entry = next := by rw [effect, hnext]
    rw [List.foldl_cons, heffect]
    exact ih next last hrest

/-- A waiting call has no entry, and a call that failed after its commit was not
acceptable where its entry stands. -/
structure Call.Sound (log : List MetaCommittedEntry) (call : Call) : Prop where
  waiting : call.phase = .waiting → call.position = none
  inLog : ∀ n, call.position = some n → n < log.length
  refuted : ∀ n e, call.position = some n → call.phase = .returned (.error e) →
    (effects (log.take n)).accepts call.command = false

theorem Call.Sound.extend {call : Call} (h : call.Sound log) (entry : MetaCommittedEntry) :
    call.Sound (log ++ [entry]) where
  waiting := h.waiting
  inLog n hn := by
    rw [List.length_append]
    exact Nat.lt_add_right _ (h.inLog n hn)
  refuted n e hn he := by
    rw [List.take_append_of_le_length (h.inLog n hn).le]
    exact h.refuted n e hn he

/-- Nothing can be held against a call that has not failed. -/
theorem Call.Sound.moveTo {call : Call} (h : call.Sound log) {phase : Phase}
    (hwaiting : phase ≠ .waiting) (hanswer : ∀ e, phase ≠ .returned (.error e)) :
    ({ call with phase } : Call).Sound log where
  waiting hphase := absurd hphase hwaiting
  inLog := h.inLog
  refuted _ e _ he := absurd he (hanswer e)

omit [Blake3] [SerdeJson] in
theorem forall_mem_set {α : Type} {P : α → Prop} {xs : List α} {i : ℕ} {x : α}
    (h : ∀ y ∈ xs, P y) (hx : P x) : ∀ y ∈ xs.set i x, P y := by
  intro y hy
  rcases List.mem_or_eq_of_mem_set hy with hy | rfl
  · exact h y hy
  · exact hx

namespace MetaSystem

/-! ## One call in flight -/

/-- The call at `index` is the only one in flight, and its entry is the last of
the log. -/
structure OnlyCall (system : MetaSystem) (index : ℕ) (call : Call)
    (before : List MetaCommittedEntry) (entry : MetaCommittedEntry) : Prop where
  here : system.calls[index]? = some call
  alone : ∀ i other, system.calls[i]? = some other → other.phase.inFlight = true → i = index
  log_eq : system.log = before ++ [entry]
  position : call.position = some before.length
  proposed : proposal call.command = .ok entry

/-- How far the last entry of the log has taken effect. -/
inductive Stage (system : MetaSystem) : Prop where
  | idle (hquiet : system.Quiet) (hauthority : system.authority = effects system.log)
      (hrevision : system.revision = system.authority.catalog.version)
  | committed {index : ℕ} {call : Call} {before : List MetaCommittedEntry}
      {entry : MetaCommittedEntry} (hcall : system.OnlyCall index call before entry)
      (hphase : call.phase = .committed entry) (hauthority : system.authority = effects before)
      (hrevision : system.revision = system.authority.catalog.version)
  | applied {index : ℕ} {call : Call} {before : List MetaCommittedEntry}
      {entry : MetaCommittedEntry} {command : CatalogCommand}
      (hcall : system.OnlyCall index call before entry)
      (hcommand : call.command = .catalog command)
      (hphase : call.phase = .applied command system.authority.catalog.version)
      (happly : (effects before).catalog.apply command = .ok system.authority.catalog)
      (hcommands : system.authority.commands = (effects before).commands)
      (hactions : system.authority.actions = (effects before).actions)
      (hrevision : system.revision = (effects before).catalog.version)
  | listed {index : ℕ} {call : Call} {before : List MetaCommittedEntry}
      {entry : MetaCommittedEntry} {command : CatalogCommand}
      (hcall : system.OnlyCall index call before entry)
      (hcommand : call.command = .catalog command)
      (hphase : call.phase = .listed system.authority.catalog.version)
      (hauthority : system.authority = effects system.log)
      (hrevision : system.revision.toNat ≤ system.authority.catalog.version.toNat)

/-- What every state of a serialized run satisfies. -/
structure Ordered (system : MetaSystem) : Prop where
  stage : system.Stage
  calls : ∀ call ∈ system.calls, call.Sound system.log
  published : system.published.Pairwise (fun a b => a.toNat ≤ b.toNat)
  latest : ∀ version ∈ system.published, version.toNat ≤ system.revision.toNat

theorem OnlyCall.inv {system : MetaSystem} {index i : ℕ} {call other : Call}
    {before : List MetaCommittedEntry} {entry : MetaCommittedEntry}
    (h : system.OnlyCall index call before entry) (hother : system.calls[i]? = some other)
    (hflight : other.phase.inFlight = true) : i = index ∧ other = call := by
  obtain rfl := h.alone i other hother hflight
  exact ⟨rfl, Option.some.inj (hother.symm.trans h.here)⟩

theorem Ordered.start {process : MetaProcess}
    (h : MetaProcess.openFrom process.log = .ok process) : (start process).Ordered where
  stage := by
    refine .idle (fun call hcall => absurd hcall List.not_mem_nil) (effects_of_open h).symm ?_
    exact (MetaProcess.openFrom_eq_ok.mp h).2.2
  calls call hcall := absurd hcall List.not_mem_nil
  published := List.pairwise_singleton _ _
  latest := List.forall_mem_singleton.mpr le_rfl

/-! ## One step -/

section Steps

variable {system : MetaSystem}
variable {index : ℕ} {call : Call} {entry : MetaCommittedEntry} {before : List MetaCommittedEntry}

theorem Stage.of_quiet (h : system.Stage) (hquiet : system.Quiet) :
    system.authority = effects system.log ∧
      system.revision = system.authority.catalog.version := by
  cases h with
  | idle _ hauthority hrevision => exact ⟨hauthority, hrevision⟩
  | committed hcall hphase | applied hcall _ hphase | listed hcall _ hphase =>
    have := hquiet _ (List.mem_of_getElem? hcall.here)
    rw [hphase] at this
    cases this

/-- Calls that are not in flight come and go without a trace. -/
theorem Stage.congr_calls (h : system.Stage) {calls : List Call}
    (hflight : ∀ (i : ℕ) (call : Call), call.phase.inFlight = true →
      (calls[i]? = some call ↔ system.calls[i]? = some call)) :
    ({ system with calls } : MetaSystem).Stage := by
  have honly : ∀ {index call before entry}, call.phase.inFlight = true →
      system.OnlyCall index call before entry →
      ({ system with calls } : MetaSystem).OnlyCall index call before entry := by
    intro index call before entry hphase hcall
    refine ⟨(hflight _ _ hphase).mpr hcall.here, ?_, hcall.log_eq, hcall.position, hcall.proposed⟩
    intro i other hother hin
    exact hcall.alone i other ((hflight i other hin).mp hother) hin
  cases h with
  | idle hquiet hauthority hrevision =>
    refine .idle (fun call hmem => ?_) hauthority hrevision
    obtain ⟨i, hi⟩ := List.mem_iff_getElem?.mp hmem
    by_contra hin
    have hcall := (hflight i call (by simpa using hin)).mp hi
    exact hin (hquiet call (List.mem_of_getElem? hcall))
  | committed hcall hphase hauthority hrevision =>
    exact .committed (honly (by rw [hphase]; rfl) hcall) hphase hauthority hrevision
  | applied hcall hcommand hphase happly hcommands hactions hrevision =>
    exact .applied (honly (by rw [hphase]; rfl) hcall) hcommand hphase happly hcommands hactions
      hrevision
  | listed hcall hcommand hphase hauthority hrevision =>
    exact .listed (honly (by rw [hphase]; rfl) hcall) hcommand hphase hauthority hrevision

theorem Ordered.invoke (h : system.Ordered) (command : AuthorityCommand) :
    (system.step (.invoke command)).Ordered where
  stage := by
    refine h.stage.congr_calls fun i call hin => ?_
    rw [List.getElem?_append]
    split_ifs with hlt
    · exact Iff.rfl
    · rw [List.getElem?_eq_none (not_lt.mp hlt)]
      refine iff_of_false (fun hcall => ?_) (by simp)
      rw [List.mem_singleton.mp (List.mem_of_getElem? hcall)] at hin
      cases hin
  calls := by
    refine List.forall_mem_append.mpr ⟨h.calls, List.forall_mem_singleton.mpr ⟨fun _ => rfl, ?_, ?_⟩⟩
    · rintro n ⟨⟩
    · rintro n e ⟨⟩
  published := h.published
  latest := h.latest

/-- A call that is not in flight ends without having committed. -/
theorem Ordered.moveTo_of_waiting (h : system.Ordered) (hcall : system.calls[index]? = some call)
    (hphase : call.phase = .waiting) (answer : Except MetaProcessError Answer) :
    (system.moveTo index call (.returned answer)).Ordered where
  stage := by
    refine h.stage.congr_calls fun i other hin => ?_
    rw [List.getElem?_set]
    split_ifs with hi hlt
    · subst hi
      rw [hcall]
      refine iff_of_false (fun hother => ?_) (fun hother => ?_)
      · rw [← Option.some.inj hother] at hin
        cases hin
      · rw [← Option.some.inj hother, hphase] at hin
        cases hin
    · subst hi
      rw [List.getElem?_eq_none (not_lt.mp hlt)] at hcall
      cases hcall
    · exact Iff.rfl
  calls := by
    have hsound := h.calls call (List.mem_of_getElem? hcall)
    have hnone := hsound.waiting hphase
    refine forall_mem_set h.calls ⟨fun _ => hnone, hsound.inLog, fun n e hn => ?_⟩
    rw [show call.position = none from hnone] at hn
    cases hn
  published := h.published
  latest := h.latest

/-- The new entry belongs to the only call in flight. -/
theorem Ordered.commit_ok (h : system.Ordered) (hcall : system.calls[index]? = some call)
    (hquiet : system.Quiet) (hentry : proposal call.command = .ok entry) :
    (system.commit index call).Ordered := by
  simp only [commit, hentry]
  obtain ⟨hauthority, hrevision⟩ := h.stage.of_quiet hquiet
  have hlt : index < system.calls.length := (List.getElem?_eq_some_iff.mp hcall).1
  have honly : ({ system with
      process := ⟨system.process.log ++ [entry], system.process.core⟩
      calls := system.calls.set index
        ⟨call.command, some system.process.log.length, .committed entry⟩ } : MetaSystem).OnlyCall
      index ⟨call.command, some system.process.log.length, .committed entry⟩ system.log entry := by
    refine ⟨List.getElem?_set_self hlt, fun i other hother hin => ?_, rfl, rfl, hentry⟩
    by_contra hne
    rw [List.getElem?_set_ne (Ne.symm hne)] at hother
    rw [hquiet other (List.mem_of_getElem? hother)] at hin
    cases hin
  refine ⟨.committed honly rfl hauthority hrevision, ?_, h.published, h.latest⟩
  refine forall_mem_set (fun other hother => (h.calls other hother).extend entry) ⟨?_, ?_, ?_⟩
  · rintro ⟨⟩
  · rintro n ⟨⟩
    simp [log]
  · rintro n e - ⟨⟩

theorem OnlyCall.quiet_set {returned : Call} (h : system.OnlyCall index call before entry)
    (hreturned : returned.phase.inFlight = false) :
    ∀ other ∈ system.calls.set index returned, other.phase.inFlight = false := by
  intro other hother
  obtain ⟨i, hi⟩ := List.mem_iff_getElem?.mp hother
  by_contra hin
  rw [List.getElem?_set] at hi
  split_ifs at hi with heq hlt
  · rw [← Option.some.inj hi] at hin
    exact hin hreturned
  · exact heq (h.alone i other hi (by simpa using hin)).symm

/-- The only call in flight moves on and stays it. -/
theorem OnlyCall.set (h : system.OnlyCall index call before entry) (phase : Phase)
    (authority : Authority) :
    ((system.withAuthority authority).moveTo index call phase).OnlyCall index
      { call with phase } before entry := by
  have hlt : index < system.calls.length := (List.getElem?_eq_some_iff.mp h.here).1
  refine ⟨List.getElem?_set_self hlt, fun i other hother hin => ?_, h.log_eq, h.position,
    h.proposed⟩
  by_contra hne
  have hold : system.calls[i]? = some other := by
    rw [← List.getElem?_set_ne (Ne.symm hne)]
    exact hother
  exact hne (h.alone i other hold hin)

section Alone

variable (hcall : system.OnlyCall index call before entry)

include hcall

/-- What the entry of the only call leads to, if the catalog takes it. -/
theorem OnlyCall.effects_log {command : CatalogCommand} {catalog : CatalogState}
    (hcommand : call.command = .catalog command)
    (happly : (effects before).catalog.apply command = .ok catalog) :
    effects system.log =
      ⟨catalog, (effects before).commands ++ [command], (effects before).actions⟩ := by
  have heffect : (effects before).apply call.command = .ok (.version catalog.version,
      ⟨catalog, (effects before).commands ++ [command], (effects before).actions⟩) := by
    simp only [hcommand, Authority.apply, happly]
    rfl
  rw [hcall.log_eq, effects_concat, effect_of_ok hcall.proposed heffect]

variable (h : system.Ordered)

include h

/-- The entry of the only call is refused: it takes no effect. -/
theorem Ordered.moveTo_of_refused {e : ControlError}
    (hauthority : system.authority = effects before)
    (hrevision : system.revision = system.authority.catalog.version)
    (happly : system.authority.apply call.command = .error e) :
    (system.moveTo index call (.returned (.error (.ofControl e)))).Ordered := by
  rw [hauthority] at happly
  refine ⟨.idle (hcall.quiet_set rfl) ?_ hrevision, ?_, h.published, h.latest⟩
  · change system.authority = effects system.log
    rw [hcall.log_eq, effects_concat, effect_of_error hcall.proposed happly, hauthority]
  · have hsound := h.calls call (List.mem_of_getElem? hcall.here)
    refine forall_mem_set h.calls ⟨?_, hsound.inLog, ?_⟩
    · rintro ⟨⟩
    · intro n _ hn _
      obtain rfl : before.length = n := Option.some.inj (hcall.position.symm.trans hn)
      change (effects (system.log.take before.length)).accepts call.command = false
      rw [hcall.log_eq, List.take_left, Authority.accepts, happly]
      rfl

/-- The entry of the only call is decided on. -/
theorem Ordered.apply_committed (hauthority : system.authority = effects before)
    (hrevision : system.revision = system.authority.catalog.version) :
    (system.apply index call entry).Ordered := by
  have hsound := h.calls call (List.mem_of_getElem? hcall.here)
  have hdecode := decode_proposal hcall.proposed
  cases hcommand : call.command with
  | catalog command =>
    rw [hcommand] at hdecode
    simp only [apply, hdecode]
    cases happly : system.authority.catalog.apply command with
    | error =>
      refine h.moveTo_of_refused hcall hauthority hrevision ?_
      simp only [hcommand, Authority.apply, happly]
      rfl
    | ok =>
      rw [hauthority] at happly hrevision
      refine ⟨.applied (hcall.set _ _) hcommand rfl happly ?_ ?_ hrevision, ?_, h.published,
        h.latest⟩
      · rw [← hauthority]
        rfl
      · rw [← hauthority]
        rfl
      · exact forall_mem_set h.calls
          (hsound.moveTo (fun hphase => by cases hphase) fun _ hphase => by cases hphase)
  | action command =>
    rw [hcommand] at hdecode
    simp only [apply, hdecode]
    cases happly : system.authority.actions.apply command with
    | error =>
      refine h.moveTo_of_refused hcall hauthority hrevision ?_
      simp only [hcommand, Authority.apply, happly]
      rfl
    | ok pair =>
      obtain ⟨record, actions⟩ := pair
      have heffect : system.authority.apply call.command =
          .ok (.record record, { system.authority with actions }) := by
        simp only [hcommand, Authority.apply, happly]
        rfl
      refine ⟨.idle (hcall.quiet_set rfl) ?_ hrevision, ?_, h.published, h.latest⟩
      · change { system.authority with actions } = effects system.log
        rw [hauthority] at heffect ⊢
        rw [hcall.log_eq, effects_concat, effect_of_ok hcall.proposed heffect]
      · exact forall_mem_set h.calls
          (hsound.moveTo (fun hphase => by cases hphase) fun _ hphase => by
            rw [hcommand] at hphase
            cases hphase)

/-- With the command in the list, the entry has taken all its effect. -/
theorem Ordered.append_applied {command : CatalogCommand}
    (hcommand : call.command = .catalog command)
    (happly : (effects before).catalog.apply command = .ok system.authority.catalog)
    (hcommands : system.authority.commands = (effects before).commands)
    (hactions : system.authority.actions = (effects before).actions)
    (hrevision : system.revision = (effects before).catalog.version) :
    (system.append index call command system.authority.catalog.version).Ordered := by
  have hsound := h.calls call (List.mem_of_getElem? hcall.here)
  refine ⟨.listed (hcall.set _ _) hcommand rfl ?_ ?_, ?_, h.published, h.latest⟩
  · change ⟨system.authority.catalog, system.authority.commands ++ [command],
      system.authority.actions⟩ = effects system.log
    rw [hcall.effects_log hcommand happly, hcommands, hactions]
  · change system.revision.toNat ≤ system.authority.catalog.version.toNat
    rw [hrevision, (CatalogState.apply_version happly).2]
    exact Nat.le_succ _
  · exact forall_mem_set h.calls
      (hsound.moveTo (fun hphase => by cases hphase) fun _ hphase => by cases hphase)

/-- The published revision is the newest. -/
theorem Ordered.publish_listed {command : CatalogCommand}
    (hcommand : call.command = .catalog command)
    (hauthority : system.authority = effects system.log)
    (hrevision : system.revision.toNat ≤ system.authority.catalog.version.toNat) :
    (system.publish index call system.authority.catalog.version).Ordered := by
  have hsound := h.calls call (List.mem_of_getElem? hcall.here)
  have hlatest : ∀ version ∈ system.published,
      version.toNat ≤ system.authority.catalog.version.toNat :=
    fun version hversion => (h.latest version hversion).trans hrevision
  refine ⟨.idle (hcall.quiet_set rfl) hauthority rfl, ?_, ?_, ?_⟩
  · exact forall_mem_set h.calls
      (hsound.moveTo (fun hphase => by cases hphase) fun _ hphase => by
        rw [hcommand] at hphase
        cases hphase)
  · refine List.pairwise_append.mpr ⟨h.published, List.pairwise_singleton _ _, ?_⟩
    exact fun version hversion => List.forall_mem_singleton.mpr (hlatest version hversion)
  · exact List.forall_mem_append.mpr ⟨hlatest, List.forall_mem_singleton.mpr le_rfl⟩

end Alone

/-- A call that is not in flight either has returned or is about to commit. -/
theorem Ordered.advance_idle (h : system.Ordered) (hcall : system.calls[index]? = some call)
    (hidle : call.phase.inFlight = false) (halone : system.CommitsAlone (.advance index)) :
    (system.step (.advance index)).Ordered := by
  cases hphase : call.phase with
  | waiting =>
    simp only [MetaSystem.step, hcall, hphase]
    cases hentry : proposal call.command with
    | error =>
      simp only [commit, hentry]
      exact h.moveTo_of_waiting hcall hphase _
    | ok =>
      have hcommits : system.commitsAt index = true := by
        rw [commitsAt, hcall, Option.any_some, hphase, hentry]
        rfl
      exact h.commit_ok hcall (halone hcommits) hentry
  | returned =>
    simp only [MetaSystem.step, hcall, hphase]
    exact h
  | committed | applied | listed =>
    rw [hphase] at hidle
    cases hidle

theorem Ordered.step (h : system.Ordered) {action : Action} (halone : system.CommitsAlone action) :
    (system.step action).Ordered := by
  cases action with
  | invoke command => exact h.invoke command
  | advance index =>
    cases hcall : system.calls[index]? with
    | none =>
      simp only [MetaSystem.step, hcall]
      exact h
    | some call =>
      cases hin : call.phase.inFlight with
      | false => exact h.advance_idle hcall hin halone
      | true =>
        -- The call is the one the stage speaks of.
        cases h.stage with
        | idle hquiet =>
          rw [hquiet call (List.mem_of_getElem? hcall)] at hin
          cases hin
        | committed honly hphase hauthority hrevision =>
          obtain ⟨rfl, rfl⟩ := honly.inv hcall hin
          simp only [MetaSystem.step, hcall, hphase]
          exact h.apply_committed honly hauthority hrevision
        | applied honly hcommand hphase happly hcommands hactions hrevision =>
          obtain ⟨rfl, rfl⟩ := honly.inv hcall hin
          simp only [MetaSystem.step, hcall, hphase]
          exact h.append_applied honly hcommand happly hcommands hactions hrevision
        | listed honly hcommand hphase hauthority hrevision =>
          obtain ⟨rfl, rfl⟩ := honly.inv hcall hin
          simp only [MetaSystem.step, hcall, hphase]
          exact h.publish_listed honly hcommand hauthority hrevision

theorem Ordered.run (h : system.Ordered) {schedule : List Action}
    (hserialized : system.Serialized schedule) : (system.run schedule).Ordered := by
  induction schedule generalizing system with
  | nil => exact h
  | cons action schedule ih => exact ih (h.step hserialized.1) hserialized.2

end Steps

/-! ## Log order -/

/-- The catalog with the ledger, and the command list, are each what a prefix of the
log leads to, and the whole log once no call is in flight; a call that failed after
its commit was not acceptable at its position; and the published revisions never
decrease. -/
structure InLogOrder (system : MetaSystem) : Prop where
  decided : ∃ n ≤ system.log.length,
    system.authority.catalog = (effects (system.log.take n)).catalog ∧
      system.authority.actions = (effects (system.log.take n)).actions
  listed : ∃ n ≤ system.log.length,
    system.authority.commands = (effects (system.log.take n)).commands
  settled : system.Quiet → system.authority = effects system.log
  refuted : ∀ call ∈ system.calls, ∀ n e, call.position = some n →
    call.phase = .returned (.error e) →
      (effects (system.log.take n)).accepts call.command = false
  published : system.published.Pairwise (fun a b => a.toNat ≤ b.toNat)

theorem Stage.prefixes {system : MetaSystem} (h : system.Stage) :
    ∃ n ≤ system.log.length, ∃ m ≤ system.log.length,
      system.authority.catalog = (effects (system.log.take n)).catalog ∧
      system.authority.actions = (effects (system.log.take n)).actions ∧
      system.authority.commands = (effects (system.log.take m)).commands := by
  cases h with
  | idle _ hauthority | listed _ _ _ hauthority =>
    refine ⟨_, le_rfl, _, le_rfl, ?_⟩
    rw [List.take_length, ← hauthority]
    exact ⟨rfl, rfl, rfl⟩
  | @committed _ _ before entry hcall _ hauthority =>
    have hlength : before.length ≤ system.log.length := by simp [hcall.log_eq]
    refine ⟨_, hlength, _, hlength, ?_⟩
    rw [hcall.log_eq, List.take_left, ← hauthority]
    exact ⟨rfl, rfl, rfl⟩
  | @applied _ _ before entry _ hcall hcommand _ happly hcommands hactions =>
    have hlength : before.length ≤ system.log.length := by simp [hcall.log_eq]
    refine ⟨_, le_rfl, _, hlength, ?_⟩
    rw [List.take_length, hcall.effects_log hcommand happly, hcall.log_eq, List.take_left]
    exact ⟨rfl, hactions, hcommands⟩

/-- As long as no call commits while another is in flight, committed commands take
effect in log order. -/
theorem inLogOrder_of_serialized (process : MetaProcess)
    (hopened : MetaProcess.openFrom process.log = .ok process) (schedule : List Action)
    (hserialized : (start process).Serialized schedule) :
    ((start process).run schedule).InLogOrder := by
  have h := (Ordered.start hopened).run hserialized
  obtain ⟨n, hn, m, hm, hcatalog, hactions, hcommands⟩ := h.stage.prefixes
  exact ⟨⟨n, hn, hcatalog, hactions⟩, ⟨m, hm, hcommands⟩,
    fun hquiet => (h.stage.of_quiet hquiet).1, fun call hcall => (h.calls call hcall).refuted,
    h.published⟩

def sequentialSchedule : List (@Action foldHash) :=
  letI := foldHash
  [.invoke (.catalog (samplePut 0)), .invoke (.catalog (samplePut 1)), .advance 0, .advance 0,
    .advance 0, .advance 0, .advance 1, .advance 1, .advance 1, .advance 1]

omit [Blake3] [SerdeJson] in
theorem inLogOrder_sequentialSchedule :
    letI := foldHash
    letI := sampleJson
    ((start MetaProcess.fresh).run sequentialSchedule).InLogOrder := by
  let _ := foldHash
  let _ := sampleJson
  exact inLogOrder_of_serialized MetaProcess.fresh rfl sequentialSchedule (by decide +kernel)

/-- The second placement overtakes the first between its commit and its
application. -/
def overtakingSchedule : List (@Action foldHash) :=
  letI := foldHash
  [.invoke (.catalog (samplePut 0)), .invoke (.catalog (samplePut 1)), .advance 0, .advance 1,
    .advance 1]

/-- Both are applied in order, but the second is listed and published first. -/
def overtakingPublication : List (@Action foldHash) :=
  letI := foldHash
  [.invoke (.catalog (samplePut 0)), .invoke (.catalog (samplePut 1)), .advance 0, .advance 1,
    .advance 0, .advance 1, .advance 1, .advance 1, .advance 0, .advance 0]

omit [Blake3] [SerdeJson] in
/-- A placement that is acceptable at its position fails, and the published
revision falls. -/
theorem not_inLogOrder_overtaking :
    letI := foldHash
    letI := sampleJson
    (((start MetaProcess.fresh).run overtakingSchedule).calls.map
      fun call => (call.position, match call.phase with
        | .returned (.error e) => some e
        | _ => none)) = [(some 0, none), (some 1, some (.ofControl (.staleCatalog 1 0)))] ∧
    (effects (((start MetaProcess.fresh).run overtakingSchedule).log.take 1)).accepts
      (.catalog (samplePut 1)) = true ∧
    ((start MetaProcess.fresh).run overtakingPublication).published = [0, 2, 1] := by
  refine ⟨?_, ?_, ?_⟩ <;> decide +kernel

end MetaSystem

end DtgProxy.Meta

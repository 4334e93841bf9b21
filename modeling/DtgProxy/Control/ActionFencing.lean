import DtgProxy.Control.Action

/-! # Leases fence the workers of an action

Commands of several workers reach the ledger in any order.  Every claim that is accepted
issues a lease of a higher epoch, only the lease issued last can end the attempt, and an
action that is completed or has failed for good keeps its state.
-/
namespace DtgProxy.Control

open Kernel Lib OrderedMap

namespace ActionState

def attempt : ActionState → UInt32
  | .pending attempt | .claimed attempt _ _ | .completed attempt _ | .failed attempt _ => attempt

def lease : ActionState → Option ActionLease
  | .claimed _ _ lease => some lease
  | .pending _ | .completed _ _ | .failed _ _ => none

def isFinal : ActionState → Bool
  | .completed _ _ | .failed _ _ => true
  | .pending _ | .claimed _ _ _ => false

end ActionState

/-- How a command moves the state of its action, and the lease it issues. -/
inductive Moves : ActionCommand → ActionState → ActionState → Option ActionLease → Prop where
  | enqueues (catalogVersion action) :
      Moves (.enqueue catalogVersion action) (.pending 0) (.pending 0) none
  | claims {id worker now leaseDuration state} (lease : ActionLease)
      (hopen : state.isFinal = false) (hroom : state.attempt.toNat + 1 < 2 ^ 32)
      (hepoch : lease.epoch = (state.attempt + 1).toUInt64) :
      Moves (.claim id worker now leaseDuration) state
        (.claimed (state.attempt + 1) worker lease) (some lease)
  | completes {id attempt worker lease} :
      Moves (.complete id lease) (.claimed attempt worker lease) (.completed attempt lease) none
  | fails {id attempt worker lease} (failure : ActionFailure) :
      Moves (.fail id lease failure) (.claimed attempt worker lease)
        (if failure.retryable then .pending attempt else .failed attempt failure) none

section Moves

variable {command : ActionCommand} {state state' : ActionState} {issued : Option ActionLease}

theorem Moves.of_final (h : Moves command state state' issued) (hfinal : state.isFinal = true) :
    state' = state := by
  cases h with
  | enqueues => rfl
  | claims lease hopen => cases hopen.symm.trans hfinal
  | completes | fails => cases hfinal

/-- An attempt is ended under the lease it is claimed with. -/
theorem Moves.lease_of_end {id : ActionId} {lease : ActionLease} {failure : ActionFailure}
    (h : Moves command state state' issued)
    (hcommand : command = .complete id lease ∨ command = .fail id lease failure) :
    state.lease = some lease := by
  cases h with
  | enqueues | claims => rcases hcommand with h | h <;> cases h
  | completes | fails =>
    rcases hcommand with h | h <;> cases h
    rfl

/-- The leases issued so far: their epochs increase up to the attempt, and only the last
one is at work. -/
structure Fenced (state : ActionState) (issued : List ActionLease) : Prop where
  increasing : issued.Pairwise (·.epoch < ·.epoch)
  bounded : ∀ lease ∈ issued, lease.epoch.toNat ≤ state.attempt.toNat
  latest : ∀ lease, state.lease = some lease → issued.getLast? = some lease

theorem Fenced.moves {leases : List ActionLease} (h : Fenced state leases)
    (hmoves : Moves command state state' issued) : Fenced state' (leases ++ issued.toList) := by
  cases hmoves with
  | enqueues => simpa using h
  | completes => simpa using ⟨h.increasing, h.bounded, fun _ hlease => by cases hlease⟩
  | fails failure =>
    rw [Option.toList_none, List.append_nil]
    refine ⟨h.increasing, ?_, ?_⟩
    · split_ifs <;> exact h.bounded
    · split_ifs <;> rintro lease ⟨⟩
  | claims lease hopen hroom hepoch =>
    have hattempt : (state.attempt + 1).toNat = state.attempt.toNat + 1 := by
      exact Nat.mod_eq_of_lt hroom
    have hnew : lease.epoch.toNat = state.attempt.toNat + 1 := by
      rw [hepoch, UInt32.toNat_toUInt64, hattempt]
    refine ⟨?_, ?_, ?_⟩
    · refine List.pairwise_append.mpr ⟨h.increasing, List.pairwise_singleton _ _, ?_⟩
      intro old hold other hother
      rw [List.mem_singleton.mp hother, UInt64.lt_iff_toNat_lt, hnew]
      exact Nat.lt_succ_of_le (h.bounded old hold)
    · refine List.forall_mem_append.mpr ⟨fun old hold => ?_, List.forall_mem_singleton.mpr ?_⟩
      · exact (h.bounded old hold).trans (hattempt ▸ Nat.le_succ _)
      · exact (hnew.trans hattempt.symm).le
    · rintro other ⟨⟩
      simp

end Moves

namespace ControlActionLedger

variable [Blake3] (ledger : ControlActionLedger) (id : ActionId)

/-- The ledger after a command; a refused command changes nothing. -/
def step (command : ActionCommand) : ControlActionLedger :=
  match ledger.apply command with
  | .ok (_, next) => next
  | .error _ => ledger

def run (commands : List ActionCommand) : ControlActionLedger := commands.foldl step ledger

def target : ActionCommand → ActionId
  | .enqueue catalogVersion action => actionId catalogVersion action
  | .claim id _ _ _ | .complete id _ | .fail id _ _ => id

def issues : ActionCommand → Option ActionLease
  | .claim id worker now leaseDuration =>
    match ledger.claim id worker now leaseDuration with
    | .ok (answer, _) => answer.state.lease
    | .error _ => none
  | _ => none

/-- The leases issued for an action, the oldest first. -/
def leases : ControlActionLedger → List ActionCommand → List ActionLease
  | _, [] => []
  | ledger, command :: commands =>
    (if target command = id then (ledger.issues command).toList else []) ++
      leases (ledger.step command) commands

variable {ledger id}

omit [Blake3] in
theorem state_insert (other : ActionId) (record : ActionRecord) :
    state ⟨ledger.records.insert other record⟩ id =
      if other = id then record.state else ledger.state id := by
  unfold state
  rw [lookup_insert]
  split_ifs <;> rfl

omit [Blake3] in
theorem priorAttempt_eq_ok {state : ActionState} {now : UInt64} {prior : UInt32}
    (h : priorAttempt state now = .ok prior)
    (hdone : ∀ attempt lease, state ≠ .completed attempt lease) :
    state.isFinal = false ∧ prior = state.attempt := by
  cases state with
  | completed attempt lease => exact absurd rfl (hdone attempt lease)
  | failed => cases h
  | pending =>
    cases h
    exact ⟨rfl, rfl⟩
  | claimed =>
    simp only [priorAttempt] at h
    split_ifs at h
    cases h
    exact ⟨rfl, rfl⟩

/-- A command changes nothing and issues nothing, or it moves the state of its action. -/
theorem step_cases (ledger : ControlActionLedger) (command : ActionCommand) :
    ledger.step command = ledger ∧ ledger.issues command = none ∨
      ∃ record : ActionRecord,
        ledger.step command = ⟨ledger.records.insert (target command) record⟩ ∧
        Moves command (ledger.state (target command)) record.state (ledger.issues command) := by
  cases command with
  | enqueue catalogVersion action =>
    simp only [step, apply, enqueue, target, state]
    cases ledger.records[actionId catalogVersion action]? with
    | some => exact .inl ⟨rfl, rfl⟩
    | none => exact .inr ⟨_, rfl, .enqueues _ _⟩
  | claim id worker now leaseDuration =>
    simp only [step, issues, apply, target, state]
    cases hclaim : ledger.claim id worker now leaseDuration with
    | error => exact .inl ⟨rfl, rfl⟩
    | ok result =>
      unfold claim at hclaim
      split at hclaim
      · cases hclaim
      split at hclaim
      · cases hclaim
      · next record hrecord =>
        rw [hrecord]
        split at hclaim
        · rename_i hstate
          cases hclaim
          exact .inl ⟨rfl, by simp only [hstate, ActionState.lease]⟩
        · rename_i hdone
          obtain ⟨prior, hprior, hclaim⟩ := Result.bind_eq_ok.mp hclaim
          obtain ⟨hopen, rfl⟩ := priorAttempt_eq_ok hprior hdone
          by_cases hroom : 2 ^ 32 ≤ record.state.attempt.toNat + 1
          · rw [if_pos hroom] at hclaim
            cases hclaim
          split at hclaim
          · cases hclaim
          · cases hclaim
            exact .inr ⟨_, rfl, .claims _ hopen (not_le.mp hroom) rfl⟩
  | complete id lease =>
    simp only [step, apply, complete, target, state, moveTo]
    rw [show ledger.issues (.complete id lease) = none from rfl]
    grind [Moves.completes]
  | fail id lease failure =>
    simp only [step, apply, fail, target, state, moveTo]
    rw [show ledger.issues (.fail id lease failure) = none from rfl]
    grind [Moves.fails]

/-- What moves keep, given the leases issued so far, is kept by every run. -/
theorem run_induction {P : ActionState → List ActionLease → Prop}
    (hmoves : ∀ {command state state' lease issued}, P state issued →
      Moves command state state' lease → P state' (issued ++ lease.toList))
    (issued : List ActionLease) (h : P (ledger.state id) issued) (commands : List ActionCommand) :
    P ((ledger.run commands).state id) (issued ++ leases id ledger commands) := by
  induction commands generalizing ledger issued with
  | nil => simpa [leases, ControlActionLedger.run] using h
  | cons command commands ih =>
    rw [leases, ← List.append_assoc]
    refine ih _ ?_
    rcases ledger.step_cases command with ⟨hsame, hnone⟩ | ⟨record, hnext, hmove⟩
    · rw [hsame, hnone, Option.toList_none, ite_self, List.append_nil]
      exact h
    · rw [hnext, state_insert]
      split_ifs with hid
      · subst hid
        exact hmoves h hmove
      · rwa [List.append_nil]

/-- Over every sequence of commands the leases issued for an action have strictly
increasing epochs, only the last one is at work, no other one completes or fails the
action, and an action that is completed or has failed for good never changes again. -/
theorem leases_fence_workers (id : ActionId) (commands : List ActionCommand) :
    (leases id new commands).Pairwise (·.epoch < ·.epoch) ∧
    (∀ lease, ((new.run commands).state id).lease = some lease →
      (leases id new commands).getLast? = some lease) ∧
    (∀ lease failure, (leases id new commands).getLast? ≠ some lease →
      (new.run commands).step (.complete id lease) = new.run commands ∧
      (new.run commands).step (.fail id lease failure) = new.run commands) ∧
    (((new.run commands).state id).isFinal = true →
      ∀ more, (new.run (commands ++ more)).state id = (new.run commands).state id) := by
  have hstart : Fenced (new.state id) [] :=
    ⟨.nil, fun lease hlease => absurd hlease List.not_mem_nil, fun lease hlease => by
      simp [new, state, ActionState.lease] at hlease⟩
  have hfenced := run_induction Fenced.moves [] hstart commands
  refine ⟨hfenced.increasing, hfenced.latest, ?_, ?_⟩
  · intro lease failure hstale
    have hunchanged : ∀ command, command = .complete id lease ∨ command = .fail id lease failure →
        (new.run commands).step command = new.run commands := by
      intro command hcommand
      rcases step_cases (new.run commands) command with ⟨hsame, -⟩ | ⟨record, -, hmoves⟩
      · exact hsame
      · have htarget : target command = id := by rcases hcommand with rfl | rfl <;> rfl
        rw [htarget] at hmoves
        exact absurd (hfenced.latest lease (hmoves.lease_of_end hcommand)) hstale
    exact ⟨hunchanged _ (.inl rfl), hunchanged _ (.inr rfl)⟩
  · intro hfinal more
    rw [ControlActionLedger.run, List.foldl_append]
    refine run_induction (P := fun state _ => state = (new.run commands).state id) ?_ [] rfl more
    rintro command state state' lease issued rfl hmoves
    exact hmoves.of_final hfinal

end ControlActionLedger

end DtgProxy.Control

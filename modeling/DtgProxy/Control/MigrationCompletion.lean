import DtgProxy.Control.MigrationGuarantees

/-! # Completing a migration

Before its cutover a migration can always be aborted.  After it the only way out
is the cleanup of every source namespace.  Owners and receipts are written once,
so whether that is still possible can be read off the record.
-/
namespace DtgProxy.Control.MigrationRecord

open Kernel Lib Storage

/-- The states between the cutover and the end. -/
def isPending : MigrationState → Bool
  | .activating _ | .grace _ _ => true
  | _ => false

def isTerminal : MigrationState → Bool
  | .completed | .aborted => true
  | _ => false

/-- Every voter claimed its source namespace. -/
def Claimed (record : MigrationRecord) : Prop :=
  ∀ voter ∈ record.expectedVoters, ∃ owner, record.sourceOwners[voter]? = some owner

/-- The reverse receipts there are prove one state. -/
def Agreed (record : MigrationRecord) (proof : UInt64 × Digest32) : Prop :=
  ∀ voter ∈ record.expectedVoters, ∀ receipt,
    record.receipts[receiptKey .reverseMirrored voter]? = some receipt → Proves receipt proof

/-- The source namespaces can still be cleaned up. -/
def Completable (record : MigrationRecord) : Prop :=
  record.Claimed ∧ ∃ proof, record.Agreed proof

theorem isTerminal_of_isPending {state : MigrationState} (h : isPending state = true) :
    isTerminal state = false := by
  cases state with
  | activating => rfl
  | grace => rfl
  | _ => cases h

section Stuck

variable [Blake3] {record next : MigrationRecord} {c : Call} {action : Option MigrationAction}

theorem Accepted.sourceOwners_eq (h : Accepted record c next action)
    (hstate : record.state ≠ .allocating) : next.sourceOwners = record.sourceOwners := by
  cases h with
  | claim hallocating => exact absurd hallocating hstate
  | cleanup hstate' howner hproof hadmits hnext =>
    subst hnext
    rfl
  | _ => rfl

/-- What can be cleaned up after a call could be cleaned up before it. -/
theorem Accepted.completable (h : Accepted record c next action)
    (hstate : record.state ≠ .allocating) (hnext : next.Completable) : record.Completable := by
  have hsame := h.sameMigration
  obtain ⟨hclaimed, proof, hagreed⟩ := hnext
  refine ⟨fun voter hvoter => ?_, proof, fun voter hvoter receipt hlookup => ?_⟩
  · rw [← h.sourceOwners_eq hstate]
    exact hclaimed voter (by rwa [hsame.expectedVoters])
  · exact hagreed voter (by rwa [hsame.expectedVoters]) receipt (h.keeps hlookup)

theorem completable_of_isCleaned (hreceipted : Receipted record)
    (h : record.isCleaned = true) : record.Completable := by
  have hcleaned : ∀ voter ∈ record.expectedVoters, ∃ proof owner,
      record.equalVoterProof .reverseMirrored .reverseMirrored = .ok proof ∧
        record.sourceOwners[voter]? = some owner := by
    intro voter hvoter
    have hmem := List.all_eq_true.mp h voter hvoter
    rw [Std.ExtTreeMap.contains_eq_isSome_getElem?, Option.isSome_iff_exists] at hmem
    obtain ⟨receipt, hlookup⟩ := hmem
    obtain ⟨proof, owner, hproof, howner, -⟩ := hreceipted.cleaned voter receipt hlookup
    exact ⟨proof, owner, hproof, howner⟩
  obtain ⟨first, hfirst⟩ := List.exists_mem_of_ne_nil _ record.voters_ne_nil
  obtain ⟨proof, -, hproof, -⟩ := hcleaned first hfirst
  refine ⟨fun voter hvoter => ?_, proof, fun voter hvoter receipt hlookup => ?_⟩
  · obtain ⟨-, owner, -, howner⟩ := hcleaned voter hvoter
    exact ⟨owner, howner⟩
  · obtain ⟨receipt', hlookup', hproves⟩ := equalVoterProof_eq_ok.mp hproof voter hvoter
    rw [hlookup] at hlookup'
    cases hlookup'
    exact hproves

/-- A pending migration that cannot be cleaned up stays one. -/
theorem Accepted.stuck (h : Accepted record c next action) (hreceipted : Receipted record)
    (hpending : isPending record.state = true) (hstuck : ¬ record.Completable) :
    isPending next.state = true ∧ ¬ next.Completable := by
  have hallocating : record.state ≠ .allocating := by
    intro hstate
    rw [hstate] at hpending
    cases hpending
  refine ⟨?_, fun hnext => hstuck (h.completable hallocating hnext)⟩
  cases hcall : h with
  | claim | receipt | reverse | activateRetry | rollbackRetry => exact hpending
  | backfill hstate | mirroring hstate =>
    rcases hstate with hstate | hstate <;> rw [hstate] at hpending <;> cases hpending
  | prepare hstate =>
    rcases hstate with hstate | ⟨⟨_, hstate⟩, -⟩ <;> rw [hstate] at hpending <;> cases hpending
  | abort hstate =>
    cases hrecord : record.state with
    | activating epoch => exact absurd hrecord (hstate epoch 0).1
    | grace epoch activatedAt => exact absurd hrecord (hstate epoch activatedAt).2.1
    | _ =>
      rw [hrecord] at hpending
      cases hpending
  | @cleanup replica owner index digest _ hstate howner hproof hadmits hnext =>
    subst hnext
    -- A last cleanup would show that the record could be cleaned up.
    have hcleaned : ¬ (record.withReceipt (.cleanup (record.receiptContext replica) index digest
        owner)).isCleaned = true := fun hcleaned =>
      hstuck (h.completable hallocating (completable_of_isCleaned (hreceipted.step h) hcleaned))
    rw [if_neg hcleaned]
    exact hpending
  | _ => rfl

theorem Created.stuck_after (h : Created record) {calls : List Call}
    (hpending : isPending (record.after calls).state = true)
    (hstuck : ¬ (record.after calls).Completable) (later : List Call) :
    isPending (record.after (calls ++ later)).state = true ∧
      ¬ (record.after (calls ++ later)).Completable := by
  induction later using List.reverseRecOn with
  | nil =>
    rw [List.append_nil]
    exact ⟨hpending, hstuck⟩
  | append_singleton later c ih =>
    rw [← List.append_assoc, after_append]
    rcases step_cases (record.after (calls ++ later)) c with haccepted | hrefused
    · exact haccepted.stuck (h.sound_after _).receipted ih.1 ih.2
    · change isPending ((record.after (calls ++ later)).step c).1.state = true ∧
        ¬ ((record.after (calls ++ later)).step c).1.Completable
      rw [hrefused]
      exact ih

end Stuck

/-! ## The way to the end -/

section Completion

variable [Blake3] {record : MigrationRecord}
variable {proof : UInt64 × Digest32}

/-- The receipt of a voter that the reverse mirror is at the proved state. -/
def reverseReceipt (record : MigrationRecord) (voter : ReplicaId) (proof : UInt64 × Digest32) :
    MigrationReceipt :=
  { record.receiptContext voter with
    kind := .reverseMirrored
    appliedIndex := proof.1
    logicalDigest := proof.2
    ownerIdentity := none
    pinsReleased := false }

def Reportable (record : MigrationRecord) (proof : UInt64 × Digest32) : Prop :=
  proof.1 ≠ 0 ∧ record.targetBackendClass.digest ≠ Digest32.zero ∧ proof.2 ≠ Digest32.zero

theorem Reportable.reported (h : record.Reportable proof)
    (voter : ReplicaId) : (record.reverseReceipt voter proof).Reported := by
  refine .reverseMirrored (show MigrationReceipt.reverseMirrored (record.receiptContext voter)
    proof.1 proof.2 proof.1 proof.2 = .ok _ from ?_)
  rw [MigrationReceipt.reverseMirrored, MigrationReceipt.dualApply_self, MigrationReceipt.proof,
    if_neg]
  · rfl
  · rintro (hindex | hclass | hdigest)
    · exact h.1 hindex
    · exact h.2.1 hclass
    · exact h.2.2 hdigest

variable {receipt : MigrationReceipt}

theorem keeps_after {key : ReceiptKey} (h : record.receipts[key]? = some receipt)
    (calls : List Call) :
    (record.after calls).receipts[key]? = some receipt :=
  @after_induction _ (fun current _ => current.receipts[key]? = some receipt) record h
    (fun hcurrent haccepted => haccepted.keeps hcurrent) calls

def HasReceipt (record : MigrationRecord) (kind : MigrationReceiptKind) (voter : ReplicaId) : Prop :=
  ∃ receipt, record.receipts[receiptKey kind voter]? = some receipt

/-- If every voter can be given a receipt while `P` is kept, all can. -/
theorem exists_hasReceipt {P : MigrationRecord → Prop} {kind : MigrationReceiptKind}
    (hstep : ∀ {current : MigrationRecord} {voter : ReplicaId}, P current →
      voter ∈ current.expectedVoters →
        ∃ calls, P (current.after calls) ∧ (current.after calls).HasReceipt kind voter)
    (h : P record) :
    ∃ calls, P (record.after calls) ∧
      ∀ voter ∈ record.expectedVoters, (record.after calls).HasReceipt kind voter := by
  suffices hsome : ∀ voters : List ReplicaId, voters ⊆ record.expectedVoters →
      ∃ calls, P (record.after calls) ∧
        ∀ voter ∈ voters, (record.after calls).HasReceipt kind voter from
    hsome _ (List.Subset.refl _)
  intro voters hvoters
  induction voters with
  | nil => exact ⟨[], h, by simp⟩
  | cons voter voters ih =>
    obtain ⟨calls, hcalls, hhas⟩ := ih (List.subset_of_cons_subset hvoters)
    have hvoter : voter ∈ (record.after calls).expectedVoters := by
      rw [(sameMigration_after record calls).expectedVoters]
      exact hvoters List.mem_cons_self
    obtain ⟨more, hmore, hlast⟩ := hstep hcalls hvoter
    refine ⟨calls ++ more, by rwa [after_append], fun other hother => ?_⟩
    rw [after_append]
    rcases List.mem_cons.mp hother with rfl | hother
    · exact hlast
    · obtain ⟨receipt, hreceipt⟩ := hhas other hother
      exact ⟨receipt, keeps_after hreceipt more⟩

/-- A record of the grace period whose voters can agree on a state. -/
structure Mirrorable (record : MigrationRecord) (proof : UInt64 × Digest32) : Prop where
  receipted : Receipted record
  grace : record.inGrace = true
  claimed : record.Claimed
  agreed : record.Agreed proof
  reportable : record.Reportable proof

theorem after_reverse (reported : receipt.Reported) (hgrace : record.inGrace = true)
    (hkind : receipt.kind = .reverseMirrored) (hadmits : record.Admits receipt) :
    record.after [.recordReverseReceipt receipt reported] = record.withReceipt receipt := by
  have hinsert : record.insertReceipt receipt = .ok (record.withReceipt receipt) :=
    insertReceipt_eq_ok.mpr ⟨hadmits, rfl⟩
  change (record.step _).1 = _
  simp [step, call, recordReverseReceipt, hgrace, hkind, hinsert, Except.map, bind, Except.bind]

variable {voter : ReplicaId}

theorem Mirrorable.exists_step (h : record.Mirrorable proof)
    (hvoter : voter ∈ record.expectedVoters) :
    ∃ calls, (record.after calls).Mirrorable proof ∧
      (record.after calls).HasReceipt .reverseMirrored voter := by
  cases hlookup : record.receipts[receiptKey .reverseMirrored voter]? with
  | some receipt => exact ⟨[], h, receipt, hlookup⟩
  | none =>
    have hadmits : record.Admits (record.reverseReceipt voter proof) := by
      refine ⟨⟨rfl, hvoter⟩, fun existing hexisting => ?_⟩
      change record.receipts[receiptKey .reverseMirrored voter]? = some existing at hexisting
      rw [hlookup] at hexisting
      cases hexisting
    refine ⟨[.recordReverseReceipt _ (h.reportable.reported voter)], ?_⟩
    rw [after_reverse _ h.grace rfl hadmits]
    have haccepted := @Accepted.reverse _ record _ (h.reportable.reported voter) h.grace rfl hadmits
    refine ⟨⟨h.receipted.step haccepted, h.grace, h.claimed, fun other hother receipt hreceipt => ?_,
      h.reportable⟩, record.reverseReceipt voter proof, ?_⟩
    · rw [withReceipt_lookup] at hreceipt
      split_ifs at hreceipt
      · cases hreceipt
        exact ⟨rfl, rfl⟩
      · exact h.agreed other hother receipt hreceipt
    · rw [withReceipt_lookup]
      exact if_pos rfl

/-- A record whose source namespaces can be cleaned up now. -/
structure Ready (record : MigrationRecord) (proof : UInt64 × Digest32) : Prop where
  receipted : Receipted record
  state : record.inGrace = true ∨ record.state = .completed
  claimed : record.Claimed
  proved : record.equalVoterProof .reverseMirrored .reverseMirrored = .ok proof

theorem Ready.after_cleanup (h : record.Ready proof) (hvoter : voter ∈ record.expectedVoters) :
    ∃ c next, (∃ receipt, next = record.withReceipt receipt ∧
        receiptKey receipt.kind receipt.replicaId = receiptKey .cleanup voter) ∧
      record.after [c] =
        { next with state := if next.isCleaned then .completed else record.state } ∧
      (record.after [c]).Ready proof := by
  obtain ⟨owner, howner⟩ := h.claimed voter hvoter
  have hadmits : record.Admits (.cleanup (record.receiptContext voter) proof.1 proof.2 owner) := by
    refine ⟨⟨rfl, hvoter⟩, fun existing hexisting => ?_⟩
    obtain ⟨proof', owner', hproof', howner', rfl⟩ := h.receipted.cleaned voter existing hexisting
    rw [h.proved] at hproof'
    rw [howner] at howner'
    cases hproof'
    cases howner'
    rfl
  have hinsert : record.insertReceipt (.cleanup (record.receiptContext voter) proof.1 proof.2
      owner) = .ok (record.withReceipt _) := insertReceipt_eq_ok.mpr ⟨hadmits, rfl⟩
  have hnotfenced : ¬ (¬ (record.inGrace = true ∨ record.state = .completed) ∨
      (!true) = true ∨ record.sourceOwners[voter]? ≠ some owner) := by
    simp only [h.state, howner, not_true, ne_eq, or_self, Bool.not_true, Bool.false_eq_true,
      not_false_iff]
  have hcleanup : record.after [.cleanup voter owner true] =
      { record.withReceipt (.cleanup (record.receiptContext voter) proof.1 proof.2 owner) with
        state := if (record.withReceipt (.cleanup (record.receiptContext voter) proof.1 proof.2
          owner)).isCleaned then .completed else record.state } := by
    have hok : ∃ action, record.cleanup voter owner true = .ok
        ({ record.withReceipt (.cleanup (record.receiptContext voter) proof.1 proof.2 owner) with
          state := if (record.withReceipt (.cleanup (record.receiptContext voter) proof.1 proof.2
            owner)).isCleaned then .completed else record.state }, action) := by
      unfold cleanup
      rw [if_neg hnotfenced]
      simp only [h.proved, hinsert]
      exact ⟨_, rfl⟩
    obtain ⟨action, hok⟩ := hok
    change (record.step _).1 = _
    simp only [step, call, hok, Except.map]
  have haccepted := @Accepted.cleanup _ record voter owner proof.1 proof.2 _ h.state howner
    h.proved hadmits rfl
  refine ⟨_, _, ⟨_, rfl, rfl⟩, hcleanup, ?_⟩
  rw [hcleanup]
  refine ⟨h.receipted.step haccepted, ?_, h.claimed, haccepted.equalVoterProof h.proved⟩
  split_ifs
  · exact Or.inr rfl
  · exact h.state

theorem Ready.exists_step (h : record.Ready proof) (hvoter : voter ∈ record.expectedVoters) :
    ∃ calls, (record.after calls).Ready proof ∧ (record.after calls).HasReceipt .cleanup voter := by
  obtain ⟨c, next, ⟨receipt, rfl, hkey⟩, hafter, hready⟩ := h.after_cleanup hvoter
  refine ⟨[c], hready, receipt, ?_⟩
  rw [hafter]
  rw [withReceipt_lookup, if_pos hkey]

/-- A ready record is completed by cleaning up every voter, the first one again. -/
theorem Ready.exists_completed (h : record.Ready proof) :
    ∃ calls, (record.after calls).state = .completed := by
  obtain ⟨calls, hready, hcleaned⟩ := @exists_hasReceipt _ record (fun current => current.Ready proof)
    .cleanup (fun hready hvoter => hready.exists_step hvoter) h
  obtain ⟨voter, hvoter⟩ := List.exists_mem_of_ne_nil _ (record.after calls).voters_ne_nil
  obtain ⟨c, next, ⟨receipt, rfl, -⟩, hafter, -⟩ := hready.after_cleanup hvoter
  refine ⟨calls ++ [c], ?_⟩
  rw [after_append, hafter]
  refine if_pos (List.all_eq_true.mpr fun other hother => ?_)
  have hother' : other ∈ record.expectedVoters := by
    rw [← (sameMigration_after record calls).expectedVoters]
    exact hother
  obtain ⟨stored, hstored⟩ := hcleaned other hother'
  rw [Std.ExtTreeMap.contains_eq_isSome_getElem?, withReceipt_lookup]
  split_ifs
  · rfl
  · rw [hstored]
    rfl

theorem Mirrorable.exists_completed (h : record.Mirrorable proof) :
    ∃ calls, (record.after calls).state = .completed := by
  obtain ⟨calls, hmirrorable, hmirrored⟩ := @exists_hasReceipt _ record
    (fun current => current.Mirrorable proof) .reverseMirrored
    (fun hmirrorable hvoter => hmirrorable.exists_step hvoter) h
  have hproved : (record.after calls).equalVoterProof .reverseMirrored .reverseMirrored =
      .ok proof := by
    rw [equalVoterProof_eq_ok]
    intro voter hvoter
    obtain ⟨receipt, hreceipt⟩ := hmirrored voter (by
      rwa [← (sameMigration_after record calls).expectedVoters])
    exact ⟨receipt, hreceipt, hmirrorable.agreed voter hvoter receipt hreceipt⟩
  have hready : (record.after calls).Ready proof :=
    ⟨hmirrorable.receipted, Or.inl hmirrorable.grace, hmirrorable.claimed, hproved⟩
  obtain ⟨more, hmore⟩ := hready.exists_completed
  exact ⟨calls ++ more, by rw [after_append, hmore]⟩

/-- The voters of a record past its cutover can report the state they agree on. -/
theorem exists_reportable (hreceipted : Receipted record) (hauthority : Authority record)
    (hcut : isCutOver record.state = true) (hagreed : record.Agreed proof) :
    ∃ proof', record.Agreed proof' ∧ record.Reportable proof' := by
  -- The cutover rests on a receipt, which names a class with a nonzero digest.
  have hclass : record.targetBackendClass.digest ≠ Digest32.zero := by
    obtain ⟨-, forward, hforward⟩ := hauthority.target hcut
    obtain ⟨voter, hvoter⟩ := List.exists_mem_of_ne_nil _ record.voters_ne_nil
    obtain ⟨receipt, hlookup, -⟩ := equalVoterProof_eq_ok.mp hforward voter hvoter
    have hreported := hreceipted.reported _ _ _ hlookup (by decide)
    obtain ⟨-, -, hcontext, -⟩ := hreceipted.keyed _ _ _ hlookup
    have hdigest : receipt.targetBackendClassDigest = record.targetBackendClass.digest :=
      congrArg ReceiptContext.targetBackendClassDigest hcontext
    rw [← hdigest]
    exact hreported.ne_zero.2.1
  by_cases hnone : ∀ voter ∈ record.expectedVoters,
      record.receipts[receiptKey .reverseMirrored voter]? = none
  · refine ⟨(1, ⟨List.replicate 32 1, by simp⟩), fun voter hvoter receipt hlookup => ?_,
      by decide, hclass, by decide⟩
    rw [hnone voter hvoter] at hlookup
    cases hlookup
  · push Not at hnone
    obtain ⟨voter, hvoter, hsome⟩ := hnone
    obtain ⟨receipt, hlookup⟩ := Option.ne_none_iff_exists'.mp hsome
    obtain ⟨hindex, -, hdigest⟩ := (hreceipted.reported _ _ _ hlookup (by decide)).ne_zero
    obtain ⟨happlied, hlogical⟩ := hagreed voter hvoter receipt hlookup
    exact ⟨proof, hagreed, by rwa [← happlied], hclass, by rwa [← hlogical]⟩

theorem after_publish {epoch : PlacementEpoch} (hstate : record.state = .activating epoch) :
    record.after [.publishActivation 1] = { record with state := .grace epoch 1 } := by
  change (record.step _).1 = _
  simp [step, call, publishActivation, hstate, Except.map]

/-- A pending record that can be cleaned up can be completed. -/
theorem Completable.exists_completed (hreceipted : Receipted record)
    (hauthority : Authority record) (hpending : isPending record.state = true)
    (h : record.Completable) : ∃ calls, (record.after calls).state = .completed := by
  have hcut : isCutOver record.state = true := by
    cases hstate : record.state with
    | activating => rfl
    | grace => rfl
    | _ =>
      rw [hstate] at hpending
      cases hpending
  obtain ⟨hclaimed, proof, hagreed⟩ := h
  obtain ⟨proof', hagreed', hreportable⟩ := exists_reportable hreceipted hauthority hcut hagreed
  cases hstate : record.state with
  | grace =>
    have hgrace : record.inGrace = true := by rw [inGrace, hstate]
    exact Mirrorable.exists_completed ⟨hreceipted, hgrace, hclaimed, hagreed', hreportable⟩
  | activating epoch =>
    have haccepted := @Accepted.publish _ record 1 epoch (Or.inl hstate)
    have hmirrorable : (record.after [.publishActivation 1]).Mirrorable proof' := by
      rw [after_publish hstate]
      exact ⟨hreceipted.step haccepted, rfl, hclaimed, hagreed', hreportable⟩
    obtain ⟨calls, hcalls⟩ := hmirrorable.exists_completed
    exact ⟨.publishActivation 1 :: calls, hcalls⟩
  | _ =>
    rw [hstate] at hpending
    cases hpending

theorem after_abort (hpending : isPending record.state = false)
    (hterminal : isTerminal record.state = false) :
    (record.after [.abort record.catalogVersion]).state = .aborted := by
  change (record.step _).1.state = _
  cases hstate : record.state with
  | activating | grace =>
    rw [hstate] at hpending
    cases hpending
  | completed =>
    rw [hstate] at hterminal
    cases hterminal
  | _ => simp [step, call, abort, requireCatalog, hstate, Except.map, bind, Except.bind]

/-- From a reached record some sequence of calls leads to an end exactly when the
record is not past its cutover, or every voter claimed its source namespace and
the reverse receipts prove one state. -/
theorem reaches_end_iff (h : Created record) (calls : List Call) :
    (∃ later, isTerminal (record.after (calls ++ later)).state = true) ↔
      (isPending (record.after calls).state = true → (record.after calls).Completable) := by
  have hsound := h.sound_after calls
  constructor
  · rintro ⟨later, hlater⟩ hpending
    by_contra hstuck
    have hstays := (h.stuck_after hpending hstuck later).1
    rw [isTerminal_of_isPending hstays] at hlater
    cases hlater
  · intro hcompletable
    by_cases hpending : isPending (record.after calls).state = true
    · obtain ⟨later, hlater⟩ := (hcompletable hpending).exists_completed hsound.receipted
        hsound.authority hpending
      exact ⟨later, by rw [after_append, hlater]; rfl⟩
    · rw [Bool.not_eq_true] at hpending
      by_cases hterminal : isTerminal (record.after calls).state = true
      · exact ⟨[], by rwa [List.append_nil]⟩
      · rw [Bool.not_eq_true] at hterminal
        refine ⟨[.abort (record.after calls).catalogVersion], ?_⟩
        rw [after_append, after_abort hpending hterminal]
        rfl

end Completion

theorem expectedVoters_sampleMigration : sampleMigration.expectedVoters = [sampleVoter] := by
  decide +kernel

theorem reaches_end_iff_graceCalls :
    letI := foldHash
    Created sampleMigration ∧ isPending (sampleMigration.after graceCalls).state = true ∧
      ∃ later, isTerminal (sampleMigration.after (graceCalls ++ later)).state = true := by
  let _ := foldHash
  have hvoters : (sampleMigration.after graceCalls).expectedVoters = [sampleVoter] := by
    rw [(sameMigration_after sampleMigration graceCalls).expectedVoters,
      expectedVoters_sampleMigration]
  have hclaimed : (sampleMigration.after graceCalls).Claimed := by
    intro voter hvoter
    rw [hvoters, List.mem_singleton] at hvoter
    subst hvoter
    exact ⟨sampleDigest 1, by decide +kernel⟩
  have hagreed : (sampleMigration.after graceCalls).Agreed (48, sampleDigest 9) := by
    intro voter hvoter receipt hreceipt
    rw [hvoters, List.mem_singleton] at hvoter
    subst hvoter
    have hstored : (sampleMigration.after graceCalls).receipts[receiptKey .reverseMirrored
        sampleVoter]? = some (sampleReceipt .reverseMirrored 48) := by
      decide +kernel
    rw [hstored] at hreceipt
    cases hreceipt
    exact ⟨rfl, rfl⟩
  exact ⟨created_sampleMigration, by decide +kernel,
    (reaches_end_iff created_sampleMigration graceCalls).mpr fun _ => ⟨hclaimed, _, hagreed⟩⟩

/-- The calls of a migration whose voter never claimed a namespace. -/
def unclaimedCalls : List Call := cutoverCalls.tail

/-- A cutover without claimed namespaces is a dead end. -/
theorem unclaimed_cutover_never_ends :
    letI := foldHash
    Created sampleMigration ∧ ∀ later,
      isTerminal (sampleMigration.after (unclaimedCalls ++ later)).state = false := by
  let _ := foldHash
  have hstuck : ¬ (sampleMigration.after unclaimedCalls).Completable := by
    rintro ⟨hclaimed, -⟩
    have hvoter : sampleVoter ∈ (sampleMigration.after unclaimedCalls).expectedVoters := by
      rw [(sameMigration_after sampleMigration unclaimedCalls).expectedVoters,
        expectedVoters_sampleMigration]
      exact List.mem_singleton_self _
    obtain ⟨owner, howner⟩ := hclaimed sampleVoter hvoter
    have hnone : (sampleMigration.after unclaimedCalls).sourceOwners[sampleVoter]? = none := by
      decide +kernel
    rw [hnone] at howner
    cases howner
  refine ⟨created_sampleMigration, fun later => isTerminal_of_isPending ?_⟩
  exact (created_sampleMigration.stuck_after (by decide +kernel) hstuck later).1

end DtgProxy.Control.MigrationRecord

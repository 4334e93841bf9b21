import DtgProxy.Control.MigrationRuns

/-! # Fencing, cleanup and completion of a migration

The pair a record accepts only moves forward, and the target becomes active on
the receipts of all voters.  A rollback is published before unless it repeats the
pair of an unpublished cutover.  A cleanup spares the storage in use as long as no
rollback took place, and a migration past its cutover can still be completed
exactly when every voter claimed its source and the reverse receipts agree.
-/
namespace DtgProxy.Control.MigrationRecord

open Kernel Lib Storage

/-! ## Fencing -/

section Fencing

variable [Blake3] {record next : MigrationRecord} {c : Call} {action : Option MigrationAction}
variable {epoch : PlacementEpoch} {generation : BackendGeneration}

omit [Blake3] in
theorem accepts_iff :
    record.accepts epoch generation = true ↔
      epoch = record.activeEpoch ∧ generation = record.activeGeneration := by
  simp [accepts]

/-- The active pair stays, or both of its parts grow. -/
def Advances (record next : MigrationRecord) : Prop :=
  (next.activeEpoch = record.activeEpoch ∧ next.activeGeneration = record.activeGeneration) ∨
    (record.activeEpoch < next.activeEpoch ∧ record.activeGeneration < next.activeGeneration)

omit [Blake3] in
theorem Advances.trans {later : MigrationRecord} (h : Advances record next)
    (hlater : Advances next later) : Advances record later := by
  rcases h with ⟨hepoch, hgeneration⟩ | ⟨hepoch, hgeneration⟩
  · unfold Advances at hlater ⊢
    rwa [hepoch, hgeneration] at hlater
  · refine Or.inr ?_
    rcases hlater with ⟨hepoch', hgeneration'⟩ | ⟨hepoch', hgeneration'⟩
    · rw [hepoch', hgeneration']
      exact ⟨hepoch, hgeneration⟩
    · exact ⟨hepoch.trans hepoch', hgeneration.trans hgeneration'⟩

theorem Authority.advances (hauthority : Authority record) (h : Accepted record c next action) :
    Advances record next := by
  cases h with
  | @activate epoch index digest hstate hepoch =>
    obtain ⟨hsource, hgeneration⟩ := hauthority.source (by rw [hstate]; rfl)
    refine Or.inr ⟨?_, ?_⟩
    · change record.activeEpoch.get < epoch.get
      rw [hsource]
      omega
    · rw [hgeneration]
      exact source_lt_target record
  | @rollback epoch generation hgrace hepoch hgeneration =>
    refine Or.inr ⟨?_, ?_⟩
    · change record.activeEpoch.get < epoch.get
      omega
    · change record.activeGeneration.get < generation.get
      omega
  | cleanup hstate howner hproof hadmits hnext =>
    subst hnext
    exact Or.inl ⟨rfl, rfl⟩
  | _ => exact Or.inl ⟨rfl, rfl⟩

theorem Created.advances_step (h : Created record) (calls : List Call) (c : Call) :
    Advances (record.after calls) ((record.after calls).step c).1 := by
  rcases step_cases (record.after calls) c with haccepted | hrefused
  · exact (h.sound_after calls).authority.advances haccepted
  · rw [hrefused]
    exact Or.inl ⟨rfl, rfl⟩

theorem Created.advances_after (h : Created record) (calls later : List Call) :
    Advances (record.after calls) (record.after (calls ++ later)) := by
  induction later using List.reverseRecOn with
  | nil =>
    rw [List.append_nil]
    exact Or.inl ⟨rfl, rfl⟩
  | append_singleton later c ih =>
    rw [← List.append_assoc, after_append]
    exact ih.trans (h.advances_step _ c)

/-- A pair that was superseded stays superseded. -/
theorem Created.superseded (h : Created record) {calls later further : List Call}
    (haccepted : (record.after calls).accepts epoch generation = true)
    (hsuperseded : (record.after (calls ++ later)).accepts epoch generation = false) :
    (record.after (calls ++ later ++ further)).accepts epoch generation = false := by
  obtain ⟨rfl, rfl⟩ := accepts_iff.mp haccepted
  rw [Bool.eq_false_iff, ne_eq, accepts_iff] at hsuperseded ⊢
  rintro ⟨hepoch, -⟩
  have hgrown : (record.after calls).activeEpoch < (record.after (calls ++ later)).activeEpoch := by
    rcases h.advances_after calls later with ⟨hsame, hsame'⟩ | ⟨hlt, -⟩
    · exact absurd ⟨hsame.symm, hsame'.symm⟩ hsuperseded
    · exact hlt
  have hlater : (record.after (calls ++ later)).activeEpoch ≤
      (record.after (calls ++ later ++ further)).activeEpoch := by
    rcases h.advances_after (calls ++ later) further with ⟨hsame, -⟩ | ⟨hlt, -⟩
    · exact hsame.ge
    · exact hlt.le
  exact absurd hepoch (hgrown.trans_le hlater).ne

/-- The receipts that the activation of the target rests on. -/
theorem Accepted.activation (h : Accepted record c next action)
    (hauthority : Authority record) (hbefore : record.activeGeneration ≠ record.targetGeneration)
    (hactive : next.activeGeneration = record.targetGeneration) :
    ∃ proof, record.equalVoterProof .forwardMirrored .forwardMirrored = .ok proof := by
  cases h with
  | activate hstate => exact ⟨_, hauthority.prepared _ _ hstate⟩
  | @rollback epoch generation hgrace hepoch hgeneration =>
    have htarget : record.targetGeneration.get ≤ record.activeGeneration.get :=
      (hauthority.target (isCutOver_of_inGrace hgrace)).1
    obtain rfl : generation = record.targetGeneration := hactive
    omega
  | cleanup hstate howner hproof hadmits hnext =>
    subst hnext
    exact absurd hactive hbefore
  | _ => exact absurd hactive hbefore

/-- Every rollback of the calls comes after a publication. -/
def RollbacksPublished (record : MigrationRecord) (calls : List Call) : Prop :=
  ∀ before c rest, calls = before ++ c :: rest →
    ∀ action ∈ ((record.after before).step c).2, action.kind = .rollback →
      ∃ published ∈ record.issued before, published.kind = .publishActivation

/-- No rollback call repeats the pair of a cutover to the target. -/
def NoCutoverRetry (record : MigrationRecord) (calls : List Call) : Prop :=
  ∀ before epoch generation rest, calls = before ++ .rollback epoch generation :: rest →
    (record.after before).activeGeneration = record.targetGeneration →
      (record.after before).isRollbackRetry epoch generation = false

/-- A repeated call is accepted and issues its rollback again. -/
theorem step_rollback_retry (h : record.isRollbackRetry epoch generation = true) :
    ∃ action, (record.step (.rollback epoch generation)).2 = some action ∧
      action.kind = .rollback := by
  simp [step, call, rollback, h, Except.map, MigrationRecord.action]

theorem Accepted.rollback_cases (h : Accepted record c next action) {issued : MigrationAction}
    (hissued : issued ∈ action) (hkind : issued.kind = .rollback) :
    ∃ epoch generation, c = .rollback epoch generation ∧
      (record.inGrace = true ∨ record.isRollbackRetry epoch generation = true) := by
  cases h with
  | rollback hgrace => exact ⟨_, _, rfl, Or.inl hgrace⟩
  | rollbackRetry hretry => exact ⟨_, _, rfl, Or.inr hretry⟩
  | receipt => cases hissued
  | _ =>
    cases hissued
    cases hkind

theorem Created.rollbacksPublished_iff (h : Created record) (calls : List Call) :
    RollbacksPublished record calls ↔ NoCutoverRetry record calls := by
  constructor
  · intro hpublished before epoch generation rest hcalls hactive
    by_contra hretry
    rw [Bool.not_eq_false] at hretry
    obtain ⟨action, haction, hkind⟩ := step_rollback_retry hretry
    have hunpublished : (record.after before).IsUnpublished :=
      Or.inr ⟨⟨epoch, (of_decide_eq_true hretry).1⟩,
        hactive.trans (sameMigration_after record before).targetGeneration.symm⟩
    exact (h.sound_after before).published.mp (hpublished before _ rest hcalls action haction hkind)
      hunpublished
  · intro hretries before c rest hcalls action haction hkind
    have hsound := h.sound_after before
    refine hsound.published.mpr ?_
    rcases step_cases (record.after before) c with haccepted | hrefused
    · obtain ⟨epoch, generation, rfl, hgrace | hretry⟩ := haccepted.rollback_cases haction hkind
      · exact not_isUnpublished_of_inGrace hgrace
      · have hstate : (record.after before).state = .activating epoch :=
          (of_decide_eq_true hretry).1
        rintro (hbefore | ⟨-, hactive⟩)
        · rw [hstate] at hbefore
          cases hbefore
        · rw [(sameMigration_after record before).targetGeneration] at hactive
          rw [hretries before epoch generation rest hcalls hactive] at hretry
          cases hretry
    · rw [hrefused] at haction
      cases haction

/-- Over every sequence of calls exactly one pair is accepted, a pair that changes
grows in both parts, and a superseded pair is never accepted again.  The target
becomes active on forward receipts of every voter at one index, not before the
backfill, and one digest.  Every rollback comes after a publication exactly when
no rollback call repeats the pair of an unpublished cutover. -/
theorem authority_fenced_and_proved (h : Created record) (calls : List Call) :
    (∃! pair : PlacementEpoch × BackendGeneration,
      (record.after calls).accepts pair.1 pair.2 = true) ∧
    (∀ c, Advances (record.after calls) ((record.after calls).step c).1) ∧
    (∀ epoch generation later further,
      (record.after calls).accepts epoch generation = true →
      (record.after (calls ++ later)).accepts epoch generation = false →
      (record.after (calls ++ later ++ further)).accepts epoch generation = false) ∧
    (∀ c, (record.after calls).activeGeneration ≠ record.targetGeneration →
      ((record.after calls).step c).1.activeGeneration = record.targetGeneration →
      ∃ index digest,
        (∀ voter ∈ record.expectedVoters, ∃ receipt,
          (record.after calls).receipts[receiptKey .forwardMirrored voter]? = some receipt ∧
            receipt.kind = .forwardMirrored ∧ receipt.replicaId = voter ∧
            receipt.migrationId = record.id ∧ receipt.appliedIndex = index ∧
            receipt.logicalDigest = digest) ∧
        ∀ backfill ∈ record.issued calls, backfill.kind = .backfill →
          ∀ snapshotIndex, backfill.snapshotIndex = some snapshotIndex → snapshotIndex ≤ index) ∧
    (RollbacksPublished record calls ↔ NoCutoverRetry record calls) := by
  have hsound := h.sound_after calls
  have hsame := sameMigration_after record calls
  refine ⟨⟨((record.after calls).activeEpoch, (record.after calls).activeGeneration),
      accepts_iff.mpr ⟨rfl, rfl⟩, fun pair hpair => Prod.ext_iff.mpr (accepts_iff.mp hpair)⟩,
    h.advances_step calls, fun epoch generation later further => h.superseded,
    fun c hbefore hactive => ?_, h.rollbacksPublished_iff calls⟩
  rw [← hsame.targetGeneration] at hbefore hactive
  rcases step_cases (record.after calls) c with haccepted | hrefused
  · obtain ⟨proof, hproof⟩ := haccepted.activation hsound.authority hbefore hactive
    rw [equalVoterProof_eq_ok, hsame.expectedVoters] at hproof
    refine ⟨proof.1, proof.2, fun voter hvoter => ?_,
      fun backfill hissued hkind snapshotIndex hindex => ?_⟩
    · obtain ⟨receipt, hlookup, hindex, hdigest⟩ := hproof voter hvoter
      obtain ⟨hkind, hreplica, hmatches, -⟩ := hsound.receipted.keyed _ _ _ hlookup
      have hid : receipt.migrationId = (record.after calls).id :=
        congrArg ReceiptContext.migrationId hmatches
      exact ⟨receipt, hlookup, hkind, hreplica, hid.trans hsame.id, hindex, hdigest⟩
    · obtain ⟨voter, hvoter⟩ := List.exists_mem_of_ne_nil _ record.voters_ne_nil
      obtain ⟨receipt, hlookup, happlied, -⟩ := hproof voter hvoter
      rw [← happlied]
      exact hsound.backfilled.forward voter receipt hlookup backfill hissued hkind snapshotIndex
        hindex
  · rw [hrefused] at hactive
    exact absurd hactive hbefore

end Fencing

/-! ### A sample migration -/

def sampleVoter : ReplicaId := 1

def sampleTarget : BackendClass := .plain .postgreSql rfl

def sampleEpoch (value : ℕ) (h : value ≠ 0 ∧ value < 256 ^ 8 := by decide) : PlacementEpoch :=
  ⟨value, h.1, h.2⟩

def sampleGeneration (value : ℕ) (h : value ≠ 0 ∧ value < 256 ^ 8 := by decide) :
    BackendGeneration :=
  ⟨value, h.1, h.2⟩

def sampleDigest (byte : UInt8) : Digest32 := ⟨List.replicate 32 byte, by simp⟩

/-- A migration with one voter from generation 3 at epoch 7 to generation 4. -/
def sampleMigration : MigrationRecord :=
  Result.value (new ⟨17, by decide, by decide⟩ 1 1 12 (sampleEpoch 7) (sampleGeneration 3)
    (sampleGeneration 4) sampleTarget [sampleVoter]) (by decide +kernel)

theorem created_sampleMigration : letI := foldHash; Created sampleMigration := by
  let _ := foldHash
  exact .new (show new ⟨17, by decide, by decide⟩ 1 1 12 (sampleEpoch 7) (sampleGeneration 3)
    (sampleGeneration 4) sampleTarget [sampleVoter] = .ok sampleMigration from rfl)

def sampleReceipt (kind : MigrationReceiptKind) (index : UInt64) : MigrationReceipt :=
  letI := foldHash
  { sampleMigration.receiptContext sampleVoter with
    kind := kind
    appliedIndex := index
    logicalDigest := sampleDigest 9
    ownerIdentity := none
    pinsReleased := false }

theorem reported_forward : (sampleReceipt .forwardMirrored 44).Reported :=
  .mirrored (show MigrationReceipt.mirrored (sampleReceipt .forwardMirrored 44).toReceiptContext 44
    (sampleDigest 9) 44 (sampleDigest 9) = .ok _ from by decide +kernel)

theorem reported_reverse : (sampleReceipt .reverseMirrored 48).Reported :=
  .reverseMirrored (show MigrationReceipt.reverseMirrored
    (sampleReceipt .reverseMirrored 48).toReceiptContext 48 (sampleDigest 9) 48 (sampleDigest 9) =
      .ok _ from by decide +kernel)

/-- The calls up to a cutover that is not published. -/
def cutoverCalls : List Call :=
  [.claimTargetNamespace sampleVoter (sampleDigest 1) (sampleDigest 11) none, .beginBackfill 41,
    .beginMirroring, .recordReceipt (sampleReceipt .forwardMirrored 44) reported_forward, .prepare,
    .activate (sampleEpoch 8)]

theorem authority_fenced_and_proved_cutoverCalls :
    letI := foldHash
    Created sampleMigration ∧
      (sampleMigration.after cutoverCalls).accepts (sampleEpoch 8) (sampleGeneration 4) = true ∧
      ∃! pair : PlacementEpoch × BackendGeneration,
        (sampleMigration.after cutoverCalls).accepts pair.1 pair.2 = true := by
  let _ := foldHash
  exact ⟨created_sampleMigration, by decide +kernel,
    (authority_fenced_and_proved created_sampleMigration cutoverCalls).1⟩

/-- A rollback to the pair of the cutover is issued before any publication. -/
theorem rollback_before_publication :
    letI := foldHash
    Created sampleMigration ∧
      ((sampleMigration.after cutoverCalls).step
        (.rollback (sampleEpoch 8) (sampleGeneration 4))).2.map MigrationAction.kind =
          some .rollback ∧
      ∀ issued ∈ sampleMigration.issued cutoverCalls, issued.kind ≠ .publishActivation := by
  exact ⟨created_sampleMigration, by decide +kernel, by decide +kernel⟩

/-! ## Cleanup -/

/-- The namespaces behind the active generation: those of the target after the
cutover, those of the source before it and after a rollback. -/
def backing (record : MigrationRecord) : OrderedMap ReplicaId Digest32 :=
  if record.activeGeneration = record.targetGeneration then record.targetOwners
  else record.sourceOwners

/-- Namespaces are claimed under identities of their own, and cleanup is asked for
while the target is active. -/
def Careful (record : MigrationRecord) : Call → Prop
  | .claimTargetNamespace _ source target _ =>
    source ≠ target ∧ OrderedMap.anyValue record.targetOwners (· = source) = false ∧
      OrderedMap.anyValue record.sourceOwners (· = target) = false
  | .cleanup _ _ _ => record.activeGeneration = record.targetGeneration
  | _ => True

instance (record : MigrationRecord) : DecidablePred record.Careful
  | .claimTargetNamespace _ source target _ =>
    inferInstanceAs (Decidable (source ≠ target ∧
      OrderedMap.anyValue record.targetOwners (· = source) = false ∧
        OrderedMap.anyValue record.sourceOwners (· = target) = false))
  | .cleanup _ _ _ =>
    inferInstanceAs (Decidable (record.activeGeneration = record.targetGeneration))
  | .beginBackfill _ | .beginMirroring | .recordReceipt _ _ | .prepare | .activate _
  | .publishActivation _ | .recordReverseReceipt _ _ | .abort _ | .rollback _ _ =>
    inferInstanceAs (Decidable True)

section Cleanup

variable [Blake3] {record next : MigrationRecord} {c : Call} {action : Option MigrationAction}

/-- Every call of the sequence is careful where it is made. -/
def CarefulCalls (record : MigrationRecord) : List Call → Prop
  | [] => True
  | c :: calls => record.Careful c ∧ (record.step c).1.CarefulCalls calls

instance decidableCarefulCalls (record : MigrationRecord) :
    (calls : List Call) → Decidable (record.CarefulCalls calls)
  | [] => inferInstanceAs (Decidable True)
  | c :: calls =>
    have := decidableCarefulCalls (record.step c).1 calls
    inferInstanceAs (Decidable (record.Careful c ∧ (record.step c).1.CarefulCalls calls))

theorem carefulCalls_append {calls calls' : List Call} :
    CarefulCalls record (calls ++ calls') ↔
      CarefulCalls record calls ∧ CarefulCalls (record.after calls) calls' := by
  induction calls generalizing record with
  | nil => simp [CarefulCalls]
  | cons c calls ih => simp [CarefulCalls, after_cons, ih, and_assoc]

/-- No namespace belongs to both sides. -/
def OwnersApart (record : MigrationRecord) : Prop :=
  ∀ (voter voter' : ReplicaId) (owner : Digest32), record.sourceOwners[voter]? = some owner →
    record.targetOwners[voter']? ≠ some owner

theorem OwnersApart.step (h : OwnersApart record) (hcareful : record.Careful c)
    (haccepted : Accepted record c next action) : OwnersApart next := by
  cases haccepted with
  | @claim replica source target observed hstate hvoter hsource htarget =>
    obtain ⟨hne, hfresh, hfresh'⟩ := hcareful
    rw [OrderedMap.anyValue_eq_false_iff] at hfresh hfresh'
    intro voter voter' owner
    rw [OrderedMap.lookup_insert, OrderedMap.lookup_insert]
    split_ifs with hown hown'
    · rintro ⟨rfl⟩ ⟨rfl⟩
      exact hne rfl
    · rintro ⟨rfl⟩ howner
      simpa using hfresh voter' _ howner
    · rintro howner ⟨rfl⟩
      simpa using hfresh' voter _ howner
    · exact h voter voter' owner
  | cleanup hstate howner hproof hadmits hnext =>
    subst hnext
    exact h
  | _ => exact h

theorem Created.ownersApart_after (h : Created record) {calls : List Call}
    (hcareful : CarefulCalls record calls) : OwnersApart (record.after calls) := by
  induction calls using List.reverseRecOn with
  | nil =>
    intro voter voter' owner howner
    change record.sourceOwners[voter]? = some owner at howner
    rw [h.initial.sourceOwners, Std.ExtTreeMap.getElem?_empty] at howner
    cases howner
  | append_singleton calls c ih =>
    rw [after_append]
    change OwnersApart ((record.after calls).step c).1
    obtain ⟨hbefore, hlast, -⟩ := carefulCalls_append.mp hcareful
    rcases step_cases (record.after calls) c with haccepted | hrefused
    · exact (ih hbefore).step hlast haccepted
    · rw [hrefused]
      exact ih hbefore

theorem Accepted.cleanup_cases (h : Accepted record c next action) {issued : MigrationAction}
    (hissued : issued ∈ action) (hkind : issued.kind = .cleanup) :
    ∃ replica owner, c = .cleanup replica owner true ∧ issued.ownerIdentity = some owner ∧
      record.sourceOwners[replica]? = some owner := by
  cases h with
  | cleanup hstate howner =>
    cases hissued
    exact ⟨_, _, rfl, rfl, howner⟩
  | receipt => cases hissued
  | _ =>
    cases hissued
    cases hkind

/-- In every run of careful calls a cleanup names no namespace behind the active
generation. -/
theorem cleanup_spares_backing (h : Created record) {calls : List Call}
    (hcareful : CarefulCalls record calls) {before rest : List Call} {c : Call}
    (hcalls : calls = before ++ c :: rest) {issued : MigrationAction}
    (hissued : ((record.after before).step c).2 = some issued) (hkind : issued.kind = .cleanup) :
    ∃ owner, issued.ownerIdentity = some owner ∧
      ∀ replica : ReplicaId, (record.after before).backing[replica]? ≠ some owner := by
  subst hcalls
  obtain ⟨hbefore, hcall, -⟩ := carefulCalls_append.mp hcareful
  rcases step_cases (record.after before) c with haccepted | hrefused
  · obtain ⟨replica, owner, rfl, howner, hsource⟩ := haccepted.cleanup_cases hissued hkind
    refine ⟨owner, howner, fun voter => ?_⟩
    have hactive : (record.after before).activeGeneration = (record.after before).targetGeneration :=
      hcall
    rw [backing, if_pos hactive]
    exact h.ownersApart_after hbefore replica voter owner hsource
  · rw [hrefused] at hissued
    cases hissued

end Cleanup

/-- The calls of a migration up to the reverse receipts of its grace period. -/
def graceCalls : List Call :=
  cutoverCalls ++ [.publishActivation 1000,
    .recordReverseReceipt (sampleReceipt .reverseMirrored 48) reported_reverse]

def sampleCleanup : Call := .cleanup sampleVoter (sampleDigest 1) true

theorem cleanup_spares_backing_graceCalls :
    letI := foldHash
    CarefulCalls sampleMigration (graceCalls ++ [sampleCleanup]) ∧
      ∃ issued, ((sampleMigration.after graceCalls).step sampleCleanup).2 = some issued ∧
        ∃ owner, issued.ownerIdentity = some owner ∧ ∀ replica : ReplicaId,
          (sampleMigration.after graceCalls).backing[replica]? ≠ some owner := by
  let _ := foldHash
  have hcareful : CarefulCalls sampleMigration (graceCalls ++ [sampleCleanup]) := by
    decide +kernel
  have hkind : ((sampleMigration.after graceCalls).step sampleCleanup).2.map MigrationAction.kind =
      some .cleanup := by
    decide +kernel
  obtain ⟨issued, hissued, hcleanup⟩ := Option.map_eq_some_iff.mp hkind
  exact ⟨hcareful, issued, hissued,
    cleanup_spares_backing created_sampleMigration hcareful rfl hissued hcleanup⟩

/-- The rollback of the sample and its publication. -/
def rollbackCalls : List Call :=
  graceCalls ++ [.rollback (sampleEpoch 9) (sampleGeneration 5), .publishActivation 2000]

/-- After a rollback the source namespace backs the active generation, and its
cleanup is still issued. -/
theorem cleanup_after_rollback :
    letI := foldHash
    Created sampleMigration ∧
      (sampleMigration.after rollbackCalls).accepts (sampleEpoch 9) (sampleGeneration 5) = true ∧
      (sampleMigration.after rollbackCalls).backing[sampleVoter]? = some (sampleDigest 1) ∧
      ((sampleMigration.after rollbackCalls).step sampleCleanup).2.map
        (fun issued => (issued.kind, issued.ownerIdentity)) =
          some (.cleanup, some (sampleDigest 1)) := by
  exact ⟨created_sampleMigration, by decide +kernel, by decide +kernel, by decide +kernel⟩

end DtgProxy.Control.MigrationRecord

import DtgProxy.Control.Migration

/-! # Accepted calls of a migration

One relation lists what an accepted call can do, with the checks it passed.  The
receipts a record holds belong to the migration, and the states after the cutover
rest on receipts of all voters.
-/
namespace DtgProxy.Control.MigrationRecord

open Kernel Lib Storage

/-- Two receipts prove the same state when index and digest agree. -/
def Proves (receipt : MigrationReceipt) (proof : UInt64 × Digest32) : Prop :=
  receipt.appliedIndex = proof.1 ∧ receipt.logicalDigest = proof.2

section Proof

variable {record : MigrationRecord} {kind : MigrationReceiptKind}
  {proof : Option (UInt64 × Digest32)}

theorem proveVoter_eq_ok {voter : ReplicaId} {proof' : Option (UInt64 × Digest32)} :
    record.proveVoter kind kind proof voter = .ok proof' ↔
      ∃ receipt value, record.receipts[receiptKey kind voter]? = some receipt ∧
        proof' = some value ∧ Proves receipt value ∧ (proof = none ∨ proof = some value) := by
  unfold proveVoter Proves
  cases record.receipts[receiptKey kind voter]? with
  | none => simp
  | some receipt =>
    rw [show (some receipt <|> some receipt) = some receipt from rfl]
    cases proof with
    | none =>
      simp only [Except.ok.injEq, Option.some.injEq, true_or, and_true]
      constructor
      · rintro rfl
        exact ⟨receipt, _, rfl, rfl, rfl, rfl⟩
      · rintro ⟨_, ⟨index, digest⟩, rfl, rfl, hindex, hdigest⟩
        rw [hindex, hdigest]
    | some value =>
      simp only [Option.some.injEq, reduceCtorEq, false_or]
      split_ifs with hsame
      · simp only [Except.ok.injEq]
        constructor
        · rintro rfl
          exact ⟨receipt, _, rfl, rfl, ⟨hsame.1.symm, hsame.2.symm⟩, rfl⟩
        · rintro ⟨_, _, -, rfl, -, hvalue⟩
          rw [hvalue]
      · simp only [false_iff, not_exists, not_and]
        rintro _ _ rfl - ⟨hindex, hdigest⟩ rfl
        exact hsame ⟨hindex.symm, hdigest.symm⟩

variable {value : UInt64 × Digest32}

theorem foldlM_proveVoter_eq_ok {voters : List ReplicaId} :
    voters.foldlM (record.proveVoter kind kind) proof = .ok (some value) ↔
      (proof = none ∨ proof = some value) ∧ (voters = [] → proof = some value) ∧
        ∀ voter ∈ voters, ∃ receipt, record.receipts[receiptKey kind voter]? = some receipt ∧
          Proves receipt value := by
  induction voters generalizing proof with
  | nil =>
    simp only [List.foldlM_nil, pure, Except.pure, Except.ok.injEq, List.not_mem_nil,
      false_implies, implies_true, and_true, true_implies]
    exact ⟨fun h => ⟨Or.inr h, h⟩, fun h => h.2⟩
  | cons voter voters ih =>
    rw [List.foldlM_cons, Result.bind_eq_ok]
    constructor
    · rintro ⟨next, hnext, hrest⟩
      obtain ⟨receipt, first, hlookup, rfl, hproves, hproof⟩ := proveVoter_eq_ok.mp hnext
      obtain ⟨hvalue, -, hvoters⟩ := ih.mp hrest
      obtain rfl : first = value := by simpa using hvalue
      refine ⟨hproof, by simp, ?_⟩
      simp only [List.mem_cons, forall_eq_or_imp]
      exact ⟨⟨receipt, hlookup, hproves⟩, hvoters⟩
    · rintro ⟨hproof, -, hvoters⟩
      obtain ⟨⟨receipt, hlookup, hproves⟩, hrest⟩ := List.forall_mem_cons.mp hvoters
      exact ⟨some value, proveVoter_eq_ok.mpr ⟨receipt, value, hlookup, rfl, hproves, hproof⟩,
        ih.mpr ⟨Or.inr rfl, fun _ => rfl, hrest⟩⟩

/-- The voters prove a state exactly when each holds a receipt of it. -/
theorem equalVoterProof_eq_ok :
    record.equalVoterProof kind kind = .ok value ↔
      ∀ voter ∈ record.expectedVoters, ∃ receipt,
        record.receipts[receiptKey kind voter]? = some receipt ∧ Proves receipt value := by
  unfold equalVoterProof
  rw [Result.bind_eq_ok]
  constructor
  · rintro ⟨proof, hfold, hproof⟩
    cases proof with
    | none => cases hproof
    | some =>
      cases hproof
      exact (foldlM_proveVoter_eq_ok.mp hfold).2.2
  · intro hvoters
    exact ⟨some value, foldlM_proveVoter_eq_ok.mpr
      ⟨Or.inl rfl, fun h => absurd h record.voters_ne_nil, hvoters⟩, rfl⟩

end Proof

variable [Blake3]

/-- The receipt belongs to the migration and names one of its voters. -/
def Matches (record : MigrationRecord) (receipt : MigrationReceipt) : Prop :=
  receipt.toReceiptContext = record.receiptContext receipt.replicaId ∧
    receipt.replicaId ∈ record.expectedVoters

variable {receipt : MigrationReceipt}

theorem validateReceipt_eq_ok {record : MigrationRecord} :
    record.validateReceipt receipt = .ok () ↔ record.Matches receipt := by
  unfold validateReceipt requireCatalog Matches receiptContext
  obtain ⟨⟨id, replica, catalog, source, target, backend⟩, kind, index, digest, owner, pins⟩ :=
    receipt
  simp only [ReceiptContext.mk.injEq, true_and]
  split_ifs with hcatalog hother
  · simp only [bind, Except.bind, reduceCtorEq, false_iff]
    tauto
  · simp only [bind, Except.bind, pure, Except.pure, true_iff]
    tauto
  · simp only [bind, Except.bind, reduceCtorEq, false_iff]
    tauto
  · simp only [bind, Except.bind, reduceCtorEq, false_iff]
    tauto

def withReceipt (record : MigrationRecord) (receipt : MigrationReceipt) : MigrationRecord :=
  { record with
    receipts := record.receipts.insert (receiptKey receipt.kind receipt.replicaId) receipt }

/-- The receipt may be stored: it belongs to the migration and contradicts none. -/
def Admits (record : MigrationRecord) (receipt : MigrationReceipt) : Prop :=
  record.Matches receipt ∧
    ∀ existing, record.receipts[receiptKey receipt.kind receipt.replicaId]? = some existing →
      existing = receipt

/-- A receipt is stored unless another one of its kind and voter is there. -/
theorem insertReceipt_eq_ok {record next : MigrationRecord} :
    record.insertReceipt receipt = .ok next ↔
      record.Admits receipt ∧ next = record.withReceipt receipt := by
  unfold insertReceipt Admits withReceipt
  rw [Result.bind_eq_ok]
  constructor
  · rintro ⟨_, hvalid, hinsert⟩
    rw [and_assoc]
    refine ⟨validateReceipt_eq_ok.mp hvalid, ?_⟩
    cases hlookup : record.receipts[receiptKey receipt.kind receipt.replicaId]? with
    | none =>
      simp only [hlookup, Except.ok.injEq] at hinsert
      exact ⟨by simp, hinsert.symm⟩
    | some =>
      simp only [hlookup] at hinsert
      split_ifs at hinsert with hsame
      cases hinsert
      subst hsame
      refine ⟨by simp, ?_⟩
      rw [OrderedMap.insert_eq_self hlookup]
  · rintro ⟨⟨hmatches, hexisting⟩, rfl⟩
    refine ⟨(), validateReceipt_eq_ok.mpr hmatches, ?_⟩
    cases hlookup : record.receipts[receiptKey receipt.kind receipt.replicaId]? with
    | none => simp only [hlookup]
    | some existing =>
      obtain rfl := hexisting existing hlookup
      simp only [hlookup, if_true]
      rw [OrderedMap.insert_eq_self hlookup]

/-- The calls that are accepted, with what they checked and what they leave. -/
inductive Accepted (record : MigrationRecord) :
    Call → MigrationRecord → Option MigrationAction → Prop
  | claim {replica : ReplicaId} {source target : Digest32} {observed : Option Digest32}
      (hstate : record.state = .allocating) (hvoter : replica ∈ record.expectedVoters)
      (hsource : ∀ owner, record.sourceOwners[replica]? = some owner → owner = source)
      (htarget : ∀ owner, record.targetOwners[replica]? = some owner → owner = target) :
      Accepted record (.claimTargetNamespace replica source target observed)
        { record with
          sourceOwners := record.sourceOwners.insert replica source
          targetOwners := record.targetOwners.insert replica target }
        (some (record.action .allocate record.targetGeneration (some replica) none none
          (some target) none))
  | backfill {index : UInt64}
      (hstate : record.state = .allocating ∨ record.state = .backfilling index) :
      Accepted record (.beginBackfill index) { record with state := .backfilling index }
        (some (record.action .backfill record.targetGeneration none (some index) none none none))
  | mirroring {index : UInt64}
      (hstate : record.state = .backfilling index ∨ record.state = .mirroring index) :
      Accepted record .beginMirroring { record with state := .mirroring index }
        (some (record.action .mirrorForward record.targetGeneration none (some index) none none
          none))
  | receipt {receipt : MigrationReceipt} {reported : receipt.Reported} {snapshotIndex : UInt64}
      (hstate : record.state = .mirroring snapshotIndex)
      (hkind : receipt.kind = .verified ∨ receipt.kind = .forwardMirrored)
      (hindex : snapshotIndex ≤ receipt.appliedIndex) (hadmits : record.Admits receipt) :
      Accepted record (.recordReceipt receipt reported) (record.withReceipt receipt) none
  | prepare {index : UInt64} {digest : Digest32}
      (hstate : record.state = .prepared index digest ∨
        (∃ snapshotIndex, record.state = .mirroring snapshotIndex) ∧
          record.equalVoterProof .forwardMirrored .forwardMirrored = .ok (index, digest)) :
      Accepted record .prepare { record with state := .prepared index digest }
        (some (record.action .prepare record.targetGeneration none (some index) none none none))
  | activate {epoch : PlacementEpoch} {index : UInt64} {digest : Digest32}
      (hstate : record.state = .prepared index digest)
      (hepoch : epoch.get = record.sourceEpoch.get + 1) :
      Accepted record (.activate epoch)
        { record with
          state := .activating epoch
          activeEpoch := epoch
          activeGeneration := record.targetGeneration }
        (some (record.action .commitCutover record.targetGeneration none none (some epoch) none
          none))
  | activateRetry {epoch : PlacementEpoch} (hstate : record.state = .activating epoch)
      (hactive : record.activeGeneration = record.targetGeneration) :
      Accepted record (.activate epoch) record
        (some (record.action .commitCutover record.targetGeneration none none (some epoch) none
          none))
  | publish {activatedAt : UInt64} {epoch : PlacementEpoch}
      (hstate : record.state = .activating epoch ∨ record.state = .grace epoch activatedAt) :
      Accepted record (.publishActivation activatedAt)
        { record with state := .grace epoch activatedAt }
        (some (record.action .publishActivation record.activeGeneration none none (some epoch)
          none none))
  | reverse {receipt : MigrationReceipt} {reported : receipt.Reported}
      (hgrace : record.inGrace = true) (hkind : receipt.kind = .reverseMirrored)
      (hadmits : record.Admits receipt) :
      Accepted record (.recordReverseReceipt receipt reported) (record.withReceipt receipt)
        (some (record.action .mirrorReverse record.sourceGeneration (some receipt.replicaId)
          (some receipt.appliedIndex) none record.sourceOwners[receipt.replicaId]? none))
  | abort {version : UInt64}
      (hstate : ∀ epoch at', record.state ≠ .activating epoch ∧ record.state ≠ .grace epoch at' ∧
        record.state ≠ .completed) :
      Accepted record (.abort version) { record with state := .aborted }
        (some (record.action .abort record.sourceGeneration none none none none none))
  | rollback {epoch : PlacementEpoch} {generation : BackendGeneration}
      (hgrace : record.inGrace = true) (hepoch : epoch.get = record.activeEpoch.get + 1)
      (hgeneration : generation.get = record.activeGeneration.get + 1) :
      Accepted record (.rollback epoch generation)
        { record with
          state := .activating epoch
          activeEpoch := epoch
          activeGeneration := generation }
        (some (record.action .rollback generation none none (some epoch) none
          (record.sourceOwners.toList.head?.map Prod.snd)))
  | rollbackRetry {epoch : PlacementEpoch} {generation : BackendGeneration}
      (hretry : record.isRollbackRetry epoch generation = true) :
      Accepted record (.rollback epoch generation) record
        (some (record.action .rollback generation none none (some epoch) none
          (record.sourceOwners.toList.head?.map Prod.snd)))
  | cleanup {replica : ReplicaId} {owner : Digest32} {index : UInt64} {digest : Digest32}
      {next : MigrationRecord} (hstate : record.inGrace = true ∨ record.state = .completed)
      (howner : record.sourceOwners[replica]? = some owner)
      (hproof : record.equalVoterProof .reverseMirrored .reverseMirrored = .ok (index, digest))
      (hadmits : record.Admits (.cleanup (record.receiptContext replica) index digest owner))
      (hnext : next = record.withReceipt
        (.cleanup (record.receiptContext replica) index digest owner)) :
      Accepted record (.cleanup replica owner true)
        { next with state := if next.isCleaned then .completed else record.state }
        (some (record.action .cleanup record.sourceGeneration (some replica) (some index) none
          (some owner) none))

section Inversion

variable {record next : MigrationRecord} {action : Option MigrationAction}
  {issued : MigrationAction}
variable {receipt : MigrationReceipt}

omit [Blake3] in
theorem withState_self {state : MigrationState} (h : record.state = state) :
    { record with state := state } = record := by
  subst h
  rfl

theorem accepted_of_map {c : Call} {x : Except ControlError (MigrationRecord × MigrationAction)}
    (hcall : ∀ issued, x = .ok (next, issued) → Accepted record c next (some issued))
    (h : x.map (fun r => (r.1, some r.2)) = .ok (next, action)) : Accepted record c next action := by
  cases x with
  | error => cases h
  | ok result =>
    cases h
    exact hcall result.2 rfl

theorem claim_accepted {replica : ReplicaId} {source target : Digest32}
    {observed : Option Digest32}
    (h : record.claimTargetNamespace replica source target observed = .ok (next, issued)) :
    Accepted record (.claimTargetNamespace replica source target observed) next (some issued) := by
  unfold claimTargetNamespace at h
  split_ifs at h with hillegal hobserved howners
  cases h
  simp only [not_or, not_not] at hillegal howners
  refine .claim hillegal.1 hillegal.2.1 (fun owner howner => ?_) (fun owner howner => ?_)
  · simpa [howner] using howners.1
  · simpa [howner] using howners.2

theorem backfill_accepted {index : UInt64} (h : record.beginBackfill index = .ok (next, issued)) :
    Accepted record (.beginBackfill index) next (some issued) := by
  unfold beginBackfill at h
  split_ifs at h
  split at h
  · next hstate =>
    cases h
    exact .backfill (Or.inl hstate)
  · next existing hstate =>
    split_ifs at h with hsame
    cases h
    subst hsame
    have haccepted : Accepted record (.beginBackfill existing) _ _ := .backfill (Or.inr hstate)
    rwa [withState_self hstate] at haccepted
  · cases h

theorem mirroring_accepted (h : record.beginMirroring = .ok (next, issued)) :
    Accepted record .beginMirroring next (some issued) := by
  unfold beginMirroring at h
  split at h
  · next hstate =>
    cases h
    exact .mirroring (Or.inl hstate)
  · next hstate =>
    cases h
    exact .mirroring (Or.inr hstate)
  · cases h

theorem receipt_accepted {reported : receipt.Reported}
    (h : record.recordReceipt receipt = .ok next) :
    Accepted record (.recordReceipt receipt reported) next none := by
  unfold recordReceipt at h
  split at h
  · next hstate =>
    split_ifs at h with hinvalid
    rw [not_or, not_not, UInt64.not_lt] at hinvalid
    obtain ⟨hadmits, rfl⟩ := insertReceipt_eq_ok.mp h
    exact .receipt hstate hinvalid.1 hinvalid.2 hadmits
  · cases h

theorem prepare_accepted (h : record.prepare = .ok (next, issued)) :
    Accepted record .prepare next (some issued) := by
  obtain ⟨⟨index, digest⟩, hproof, hnext⟩ := Result.bind_eq_ok.mp h
  cases hnext
  unfold preparedProof at hproof
  split at hproof
  · next hstate =>
    cases hproof
    exact .prepare (Or.inl hstate)
  · next hstate => exact .prepare (Or.inr ⟨⟨_, hstate⟩, hproof⟩)
  · cases hproof

theorem activate_accepted {epoch : PlacementEpoch}
    (h : record.activate epoch = .ok (next, issued)) :
    Accepted record (.activate epoch) next (some issued) := by
  unfold activate at h
  split at h
  · next hstate =>
    split_ifs at h with hepoch
    cases h
    exact .activate hstate (get_eq_succ hepoch)
  · next hstate =>
    split_ifs at h with hretry
    cases h
    obtain ⟨rfl, hactive⟩ := hretry
    exact .activateRetry hstate hactive
  · cases h

theorem publish_accepted {activatedAt : UInt64}
    (h : record.publishActivation activatedAt = .ok (next, issued)) :
    Accepted record (.publishActivation activatedAt) next (some issued) := by
  unfold publishActivation at h
  split_ifs at h
  split at h
  · next hstate =>
    cases h
    exact .publish (Or.inl hstate)
  · next hstate =>
    split_ifs at h with hsame
    cases h
    subst hsame
    exact .publish (Or.inr hstate)
  · cases h

theorem reverse_accepted {reported : receipt.Reported}
    (h : record.recordReverseReceipt receipt = .ok (next, issued)) :
    Accepted record (.recordReverseReceipt receipt reported) next (some issued) := by
  unfold recordReverseReceipt at h
  split_ifs at h with hillegal
  obtain ⟨stored, hinsert, hresult⟩ := Result.bind_eq_ok.mp h
  cases hresult
  obtain ⟨hadmits, rfl⟩ := insertReceipt_eq_ok.mp hinsert
  simp only [not_or, Bool.not_eq_true', Bool.not_eq_false, not_not] at hillegal
  exact .reverse hillegal.1 hillegal.2 hadmits

theorem abort_accepted {version : UInt64} (h : record.abort version = .ok (next, issued)) :
    Accepted record (.abort version) next (some issued) := by
  obtain ⟨_, -, hresult⟩ := Result.bind_eq_ok.mp h
  cases hstate : record.state <;> simp only [hstate] at hresult <;> cases hresult
  all_goals exact .abort (by simp [hstate])

theorem rollback_accepted {epoch : PlacementEpoch} {generation : BackendGeneration}
    (h : record.rollback epoch generation = .ok (next, issued)) :
    Accepted record (.rollback epoch generation) next (some issued) := by
  unfold rollback at h
  split_ifs at h with hillegal
  cases h
  by_cases hretry : record.isRollbackRetry epoch generation = true
  · have hsame := of_decide_eq_true hretry
    obtain ⟨hstate, hepoch, hgeneration⟩ := hsame
    have heq : { record with
        state := .activating epoch
        activeEpoch := epoch
        activeGeneration := generation } = record := by
      rw [← hstate, ← hepoch, ← hgeneration]
    rw [heq]
    exact .rollbackRetry hretry
  · simp only [hretry, not_and, not_or, Bool.not_eq_true', Bool.not_eq_false, not_not,
      true_implies] at hillegal
    exact .rollback hillegal.1 (get_eq_succ hillegal.2.1) (get_eq_succ hillegal.2.2)

theorem cleanup_accepted {replica : ReplicaId} {owner : Digest32} {pinsReleased : Bool}
    (h : record.cleanup replica owner pinsReleased = .ok (next, issued)) :
    Accepted record (.cleanup replica owner pinsReleased) next (some issued) := by
  unfold cleanup at h
  split_ifs at h with hfenced
  obtain ⟨hstate, hrest⟩ := not_or.mp hfenced
  obtain ⟨hpins, howner⟩ := not_or.mp hrest
  rw [not_not] at hstate howner
  obtain rfl : pinsReleased = true := by simpa using hpins
  split at h
  · cases h
  · next hproof =>
    obtain ⟨stored, hinsert, hresult⟩ := Result.bind_eq_ok.mp h
    cases hresult
    obtain ⟨hadmits, rfl⟩ := insertReceipt_eq_ok.mp hinsert
    exact .cleanup hstate howner hproof hadmits rfl

/-- Every accepted call is in the list. -/
theorem accepted_of_call {c : Call} (h : record.call c = .ok (next, action)) :
    Accepted record c next action := by
  cases c with
  | recordReceipt receipt =>
    cases hcall : record.recordReceipt receipt with
    | error =>
      simp only [call, hcall] at h
      cases h
    | ok =>
      simp only [call, hcall] at h
      cases h
      exact receipt_accepted hcall
  | claimTargetNamespace => exact accepted_of_map (fun _ => claim_accepted) h
  | beginBackfill => exact accepted_of_map (fun _ => backfill_accepted) h
  | beginMirroring => exact accepted_of_map (fun _ => mirroring_accepted) h
  | prepare => exact accepted_of_map (fun _ => prepare_accepted) h
  | activate => exact accepted_of_map (fun _ => activate_accepted) h
  | publishActivation => exact accepted_of_map (fun _ => publish_accepted) h
  | recordReverseReceipt => exact accepted_of_map (fun _ => reverse_accepted) h
  | abort => exact accepted_of_map (fun _ => abort_accepted) h
  | rollback => exact accepted_of_map (fun _ => rollback_accepted) h
  | cleanup => exact accepted_of_map (fun _ => cleanup_accepted) h

/-- A call is accepted, or it leaves the record and issues nothing. -/
theorem step_cases (record : MigrationRecord) (c : Call) :
    Accepted record c (record.step c).1 (record.step c).2 ∨ record.step c = (record, none) := by
  unfold step
  cases hcall : record.call c with
  | ok => exact Or.inl (accepted_of_call hcall)
  | error => exact Or.inr rfl

end Inversion

end DtgProxy.Control.MigrationRecord

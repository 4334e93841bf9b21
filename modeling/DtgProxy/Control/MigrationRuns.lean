import DtgProxy.Control.MigrationSteps

/-! # Runs of a migration record

What a record keeps over any sequence of calls: the receipts of its voters, the
authority it grants, and how the actions it has issued relate to its state.
-/
namespace DtgProxy.Control.MigrationRecord

open Kernel Lib Storage MigrationRecord

variable [Blake3]

/-- A record as one of the two constructors returns it. -/
inductive Created : MigrationRecord → Prop
  | new {id : MigrationId} {graphId : GraphId} {shardId : ShardId} {version : UInt64}
      {epoch : PlacementEpoch} {source target : BackendGeneration} {backend : BackendClass}
      {voters : List ReplicaId} {record : MigrationRecord}
      (h : new id graphId shardId version epoch source target backend voters = .ok record) :
      Created record
  | newDirection {id : MigrationId} {graphId : GraphId} {shardId : ShardId} {version : UInt64}
      {epoch : PlacementEpoch} {source target : BackendGeneration}
      {sourceClass targetClass : BackendClass} {voters : List ReplicaId} {record : MigrationRecord}
      (h : newDirection id graphId shardId version epoch source sourceClass target targetClass
        voters = .ok record) :
      Created record

/-- A created record is allocating, holds nothing and grants the source authority. -/
structure Initial (record : MigrationRecord) : Prop where
  state : record.state = .allocating
  receipts : record.receipts = ∅
  sourceOwners : record.sourceOwners = ∅
  targetOwners : record.targetOwners = ∅
  activeEpoch : record.activeEpoch = record.sourceEpoch
  activeGeneration : record.activeGeneration = record.sourceGeneration

theorem Created.initial {record : MigrationRecord} (h : Created record) : Initial record := by
  have hinner : ∀ {id graphId shardId version epoch source sourceClass target backend voters},
      newInner id graphId shardId version epoch source sourceClass target backend voters =
        .ok record → Initial record := by
    intro id graphId shardId version epoch source sourceClass target backend voters hok
    unfold newInner at hok
    dsimp only at hok
    split_ifs at hok
    cases hok
    exact ⟨rfl, rfl, rfl, rfl, rfl, rfl⟩
  cases h with
  | new h => exact hinner h
  | newDirection h =>
    unfold MigrationRecord.newDirection at h
    split_ifs at h
    exact hinner h

def issued (record : MigrationRecord) : List Call → List MigrationAction
  | [] => []
  | c :: calls => (record.step c).2.toList ++ (record.step c).1.issued calls

variable (record : MigrationRecord)

@[simp] theorem after_nil : record.after [] = record := rfl

theorem after_cons (c : Call) (calls : List Call) :
    record.after (c :: calls) = (record.step c).1.after calls := rfl

theorem after_append (calls calls' : List Call) :
    record.after (calls ++ calls') = (record.after calls).after calls' :=
  List.foldl_append ..

theorem issued_append (calls calls' : List Call) :
    record.issued (calls ++ calls') = record.issued calls ++ (record.after calls).issued calls' := by
  induction calls generalizing record with
  | nil => rfl
  | cons c calls ih => simp [issued, after_cons, ih]

theorem issued_concat (calls : List Call) (c : Call) :
    record.issued (calls ++ [c]) =
      record.issued calls ++ ((record.after calls).step c).2.toList := by
  simp [issued_append, issued]

/-- What accepted calls keep, given the actions issued so far, holds after every
sequence of calls. -/
theorem after_induction {P : MigrationRecord → List MigrationAction → Prop}
    {record : MigrationRecord} (hinit : P record [])
    (hstep : ∀ {current next : MigrationRecord} {log : List MigrationAction} {c : Call}
      {action : Option MigrationAction},
      P current log → Accepted current c next action → P next (log ++ action.toList))
    (calls : List Call) : P (record.after calls) (record.issued calls) := by
  induction calls using List.reverseRecOn with
  | nil => exact hinit
  | append_singleton calls c ih =>
    rw [after_append, issued_concat]
    change P ((record.after calls).step c).1 _
    rcases step_cases (record.after calls) c with haccepted | hrefused
    · exact hstep ih haccepted
    · rw [hrefused]
      simpa using ih

structure SameMigration (record next : MigrationRecord) : Prop where
  id : next.id = record.id
  catalogVersion : next.catalogVersion = record.catalogVersion
  sourceEpoch : next.sourceEpoch = record.sourceEpoch
  sourceGeneration : next.sourceGeneration = record.sourceGeneration
  targetGeneration : next.targetGeneration = record.targetGeneration
  targetBackendClass : next.targetBackendClass = record.targetBackendClass
  expectedVoters : next.expectedVoters = record.expectedVoters

section Step

variable {record next : MigrationRecord} {c : Call} {action : Option MigrationAction}
variable {stored : MigrationReceipt}

theorem Accepted.sameMigration (h : Accepted record c next action) :
    SameMigration record next := by
  cases h with
  | cleanup hstate howner hproof hadmits hnext =>
    subst hnext
    exact ⟨rfl, rfl, rfl, rfl, rfl, rfl, rfl⟩
  | _ => exact ⟨rfl, rfl, rfl, rfl, rfl, rfl, rfl⟩

theorem sameMigration_after (record : MigrationRecord) (calls : List Call) :
    SameMigration record (record.after calls) := by
  refine @after_induction _ (fun current _ => SameMigration record current) record
    ⟨rfl, rfl, rfl, rfl, rfl, rfl, rfl⟩ (fun hsame haccepted => ?_) calls
  have hnext := haccepted.sameMigration
  exact ⟨hnext.id.trans hsame.id, hnext.catalogVersion.trans hsame.catalogVersion,
    hnext.sourceEpoch.trans hsame.sourceEpoch, hnext.sourceGeneration.trans hsame.sourceGeneration,
    hnext.targetGeneration.trans hsame.targetGeneration,
    hnext.targetBackendClass.trans hsame.targetBackendClass,
    hnext.expectedVoters.trans hsame.expectedVoters⟩

theorem SameMigration.receiptContext (h : SameMigration record next) (replica : ReplicaId) :
    next.receiptContext replica = record.receiptContext replica := by
  simp only [MigrationRecord.receiptContext, h.id, h.catalogVersion, h.sourceGeneration,
    h.targetGeneration, h.targetBackendClass]

theorem SameMigration.matches_iff (h : SameMigration record next) (receipt : MigrationReceipt) :
    next.Matches receipt ↔ record.Matches receipt := by
  simp only [Matches, h.receiptContext, h.expectedVoters]

/-! ## Receipts are written once -/

omit [Blake3] in
theorem withReceipt_lookup (record : MigrationRecord) (receipt : MigrationReceipt)
    (key : ReceiptKey) :
    (record.withReceipt receipt).receipts[key]? =
      if receiptKey receipt.kind receipt.replicaId = key then some receipt
      else record.receipts[key]? := by
  simp only [withReceipt, OrderedMap.lookup_insert]
  split_ifs <;> rfl

variable {key : ReceiptKey}

theorem Admits.keeps {receipt : MigrationReceipt} (h : record.Admits receipt)
    (hstored : record.receipts[key]? = some stored) :
    (record.withReceipt receipt).receipts[key]? = some stored := by
  rw [withReceipt_lookup]
  split_ifs with hkey
  · subst hkey
    rw [h.2 stored hstored]
  · exact hstored

/-- The ways a receipt comes to be stored. -/
inductive Stored (record : MigrationRecord) : MigrationReceipt → Prop
  | forward {receipt : MigrationReceipt} {snapshotIndex : UInt64}
      (hstate : record.state = .mirroring snapshotIndex)
      (hkind : receipt.kind = .verified ∨ receipt.kind = .forwardMirrored)
      (hindex : snapshotIndex ≤ receipt.appliedIndex) (hreported : receipt.Reported) :
      Stored record receipt
  | reverse {receipt : MigrationReceipt} (hgrace : record.inGrace = true)
      (hkind : receipt.kind = .reverseMirrored) (hreported : receipt.Reported) :
      Stored record receipt
  | cleanup {replica : ReplicaId} {owner : Digest32} {proof : UInt64 × Digest32}
      (howner : record.sourceOwners[replica]? = some owner)
      (hproof : record.equalVoterProof .reverseMirrored .reverseMirrored = .ok proof) :
      Stored record (.cleanup (record.receiptContext replica) proof.1 proof.2 owner)

section Accepted

variable (h : Accepted record c next action)

include h

theorem Accepted.keeps (hstored : record.receipts[key]? = some stored) :
    next.receipts[key]? = some stored := by
  cases h with
  | receipt hstate hkind hindex hadmits
  | reverse hgrace hkind hadmits => exact hadmits.keeps hstored
  | cleanup hstate howner hproof hadmits hnext =>
    subst hnext
    exact hadmits.keeps hstored
  | _ => exact hstored

/-- A receipt of the next record was there before or is stored by the call. -/
theorem Accepted.lookup (hstored : next.receipts[key]? = some stored) :
    record.receipts[key]? = some stored ∨
      key = receiptKey stored.kind stored.replicaId ∧ record.Matches stored ∧
        record.Stored stored := by
  have hnew : ∀ {receipt : MigrationReceipt}, record.Admits receipt → record.Stored receipt →
      (record.withReceipt receipt).receipts[key]? = some stored →
      record.receipts[key]? = some stored ∨
        key = receiptKey stored.kind stored.replicaId ∧ record.Matches stored ∧
          record.Stored stored := by
    intro receipt hadmits hway hlookup
    rw [withReceipt_lookup] at hlookup
    split_ifs at hlookup with hkey
    · cases hlookup
      exact Or.inr ⟨hkey.symm, hadmits.1, hway⟩
    · exact Or.inl hlookup
  cases h with
  | @receipt _ reported _ hstate hkind hindex hadmits =>
    exact hnew hadmits (.forward hstate hkind hindex reported) hstored
  | @reverse _ reported hgrace hkind hadmits =>
    exact hnew hadmits (.reverse hgrace hkind reported) hstored
  | cleanup hstate howner hproof hadmits hnext =>
    subst hnext
    exact hnew hadmits (.cleanup howner hproof) hstored
  | _ => exact Or.inl hstored

theorem Accepted.equalVoterProof {kind : MigrationReceiptKind} {proof : UInt64 × Digest32}
    (hproof : record.equalVoterProof kind kind = .ok proof) :
    next.equalVoterProof kind kind = .ok proof := by
  rw [equalVoterProof_eq_ok] at hproof ⊢
  intro voter hvoter
  rw [h.sameMigration.expectedVoters] at hvoter
  obtain ⟨receipt, hlookup, hproves⟩ := hproof voter hvoter
  exact ⟨receipt, h.keeps hlookup, hproves⟩

/-- The receipts a record holds. -/
structure Receipted (record : MigrationRecord) : Prop where
  keyed : ∀ kind voter receipt, record.receipts[receiptKey kind voter]? = some receipt →
    receipt.kind = kind ∧ receipt.replicaId = voter ∧ record.Matches receipt
  reported : ∀ kind voter receipt, record.receipts[receiptKey kind voter]? = some receipt →
    kind ≠ .cleanup → receipt.Reported
  cleaned : ∀ voter receipt, record.receipts[receiptKey .cleanup voter]? = some receipt →
    ∃ proof owner, record.equalVoterProof .reverseMirrored .reverseMirrored = .ok proof ∧
      record.sourceOwners[voter]? = some owner ∧
      receipt = .cleanup (record.receiptContext voter) proof.1 proof.2 owner

/-- Owners are claimed once, while allocating. -/
theorem Accepted.keeps_sourceOwner {voter : ReplicaId} {owner : Digest32}
    (howner : record.sourceOwners[voter]? = some owner) :
    next.sourceOwners[voter]? = some owner := by
  cases h with
  | @claim replica source target observed hstate hvoter hsource htarget =>
    rw [OrderedMap.lookup_insert]
    split_ifs with hsame
    · subst hsame
      rw [hsource owner howner]
    · exact howner
  | cleanup hstate howner' hproof hadmits hnext =>
    subst hnext
    exact howner
  | _ => exact howner

theorem Receipted.step (hreceipted : Receipted record) : Receipted next := by
  have hsame := h.sameMigration
  refine ⟨fun kind voter receipt hlookup => ?_, fun kind voter receipt hlookup hkind => ?_,
    fun voter receipt hlookup => ?_⟩
  · rw [hsame.matches_iff]
    rcases h.lookup hlookup with hold | ⟨hkey, hmatches, -⟩
    · exact hreceipted.keyed kind voter receipt hold
    · obtain ⟨rfl, rfl⟩ := receiptKey_inj.mp hkey
      exact ⟨rfl, rfl, hmatches⟩
  · rcases h.lookup hlookup with hold | ⟨hkey, -, hstored⟩
    · exact hreceipted.reported kind voter receipt hold hkind
    · obtain ⟨rfl, rfl⟩ := receiptKey_inj.mp hkey
      cases hstored with
      | forward _ _ _ hreported | reverse _ _ hreported => exact hreported
      | cleanup _ _ => exact absurd rfl hkind
  · rw [hsame.receiptContext]
    have hcleaned : ∃ proof owner,
        record.equalVoterProof .reverseMirrored .reverseMirrored = .ok proof ∧
          record.sourceOwners[voter]? = some owner ∧
          receipt = .cleanup (record.receiptContext voter) proof.1 proof.2 owner := by
      rcases h.lookup hlookup with hold | ⟨hkey, -, hstored⟩
      · exact hreceipted.cleaned voter receipt hold
      · obtain ⟨hkind, rfl⟩ := receiptKey_inj.mp hkey
        cases hstored with
        | forward _ hother => rcases hother with hother | hother <;> cases hkind.trans hother
        | reverse _ hother => cases hkind.trans hother
        | cleanup howner hproof => exact ⟨_, _, hproof, howner, rfl⟩
    obtain ⟨proof, owner, hproof, howner, hreceipt⟩ := hcleaned
    exact ⟨proof, owner, h.equalVoterProof hproof, h.keeps_sourceOwner howner, hreceipt⟩

end Accepted

omit [Blake3] in
theorem Initial.lookup_none (h : Initial record) (key : ReceiptKey) :
    record.receipts[key]? = none := by
  rw [h.receipts]
  exact Std.ExtTreeMap.getElem?_empty

theorem Initial.receipted (h : Initial record) : Receipted record := by
  refine ⟨fun kind voter receipt hlookup => ?_, fun kind voter receipt hlookup => ?_,
    fun voter receipt hlookup => ?_⟩ <;>
  · rw [h.lookup_none] at hlookup
    cases hlookup

/-! ## Authority -/

def isCutOver : MigrationState → Bool
  | .activating _ | .grace _ _ | .completed => true
  | _ => false

omit [Blake3] in
theorem isCutOver_of_inGrace (h : record.inGrace = true) : isCutOver record.state = true := by
  unfold inGrace at h
  cases hstate : record.state with
  | grace => rfl
  | _ => simp [hstate] at h

omit [Blake3] in
theorem isCutOver_of_abortable (hstate : ∀ epoch at', record.state ≠ .activating epoch ∧
    record.state ≠ .grace epoch at' ∧ record.state ≠ .completed) :
    isCutOver record.state = false := by
  cases hrecord : record.state with
  | activating epoch => exact absurd hrecord (hstate epoch 0).1
  | grace epoch activatedAt => exact absurd hrecord (hstate epoch activatedAt).2.1
  | completed => exact absurd hrecord (hstate record.activeEpoch 0).2.2
  | _ => rfl

/-- The authority a record grants and what it rests on. -/
structure Authority (record : MigrationRecord) : Prop where
  source : isCutOver record.state = false →
    record.activeEpoch = record.sourceEpoch ∧ record.activeGeneration = record.sourceGeneration
  target : isCutOver record.state = true →
    record.targetGeneration ≤ record.activeGeneration ∧
      ∃ proof, record.equalVoterProof .forwardMirrored .forwardMirrored = .ok proof
  prepared : ∀ index digest, record.state = .prepared index digest →
    record.equalVoterProof .forwardMirrored .forwardMirrored = .ok (index, digest)
  activating : ∀ epoch, record.state = .activating epoch → record.activeEpoch = epoch

omit [Blake3] in
/-- A state before the cutover keeps the source authority. -/
theorem Authority.of_before (h : Authority record) (hbefore : isCutOver record.state = false)
    (hepoch : next.activeEpoch = record.activeEpoch)
    (hgeneration : next.activeGeneration = record.activeGeneration)
    (hsame : SameMigration record next) (hnext : isCutOver next.state = false)
    (hprepared : ∀ index digest, next.state = .prepared index digest →
      next.equalVoterProof .forwardMirrored .forwardMirrored = .ok (index, digest)) :
    Authority next := by
  obtain ⟨hsource, htarget⟩ := h.source hbefore
  refine ⟨fun _ => ⟨?_, ?_⟩, fun hcut => ?_, hprepared, fun epoch hstate => ?_⟩
  · rw [hepoch, hsame.sourceEpoch, hsource]
  · rw [hgeneration, hsame.sourceGeneration, htarget]
  · rw [hnext] at hcut
    cases hcut
  · rw [hstate] at hnext
    cases hnext

/-- A state after the cutover keeps what the cutover rested on. -/
theorem Authority.of_cutOver (h : Authority record) (haccepted : Accepted record c next action)
    (hcut : isCutOver record.state = true) (hnext : isCutOver next.state = true)
    (hgeneration : record.activeGeneration ≤ next.activeGeneration)
    (hactivating : ∀ epoch, next.state = .activating epoch → next.activeEpoch = epoch) :
    Authority next := by
  obtain ⟨htarget, proof, hproof⟩ := h.target hcut
  refine ⟨fun hbefore => ?_, fun _ => ⟨?_, proof, haccepted.equalVoterProof hproof⟩,
    fun index digest hstate => ?_, hactivating⟩
  · rw [hnext] at hbefore
    cases hbefore
  · rw [haccepted.sameMigration.targetGeneration]
    exact htarget.trans hgeneration
  · rw [hstate] at hnext
    cases hnext

omit [Blake3] in
theorem Initial.authority (h : Initial record) : Authority record := by
  refine ⟨fun _ => ⟨h.activeEpoch, h.activeGeneration⟩, fun hcut => ?_,
    fun index digest hstate => ?_, fun epoch hstate => ?_⟩
  · rw [h.state] at hcut
    cases hcut
  · rw [h.state] at hstate
    cases hstate
  · rw [h.state] at hstate
    cases hstate

omit [Blake3] in
theorem source_lt_target (record : MigrationRecord) :
    record.sourceGeneration < record.targetGeneration := by
  change record.sourceGeneration.get < record.targetGeneration.get
  have := record.next_generation
  omega

theorem Authority.step (hauthority : Authority record) (h : Accepted record c next action) :
    Authority next := by
  have hsame := h.sameMigration
  cases hcall : h with
  | claim hstate =>
    exact hauthority.of_before (by rw [hstate]; rfl) rfl rfl hsame (by rw [hstate]; rfl)
      (fun index digest hprepared => by rw [hstate] at hprepared; cases hprepared)
  | backfill hstate | mirroring hstate =>
    have hbefore : isCutOver record.state = false := by rcases hstate with h | h <;> rw [h] <;> rfl
    exact hauthority.of_before hbefore rfl rfl hsame rfl (fun index digest h => by cases h)
  | receipt hstate =>
    exact hauthority.of_before (by rw [hstate]; rfl) rfl rfl hsame
      (by change isCutOver record.state = false; rw [hstate]; rfl)
      (fun index digest (hprepared : record.state = _) => by rw [hstate] at hprepared; cases hprepared)
  | @prepare index digest hstate =>
    have hbefore : isCutOver record.state = false := by
      rcases hstate with h | ⟨⟨_, h⟩, -⟩ <;> rw [h] <;> rfl
    refine hauthority.of_before hbefore rfl rfl hsame rfl (fun index' digest' hprepared => ?_)
    cases hprepared
    apply h.equalVoterProof
    rcases hstate with hstate | ⟨-, hproof⟩
    · exact hauthority.prepared index digest hstate
    · exact hproof
  | @activate epoch index digest hstate hepoch =>
    refine ⟨fun hbefore => (by cases hbefore), fun _ => ⟨le_refl _, (index, digest), ?_⟩,
      fun index digest hprepared => (by cases hprepared), fun epoch' hactivating => ?_⟩
    · exact h.equalVoterProof (hauthority.prepared index digest hstate)
    · cases hactivating
      rfl
  | activateRetry | rollbackRetry => exact hauthority
  | publish hstate =>
    have hcut : isCutOver record.state = true := by rcases hstate with h | h <;> rw [h] <;> rfl
    exact hauthority.of_cutOver h hcut rfl le_rfl (fun epoch h => by cases h)
  | reverse hgrace =>
    have hcut := isCutOver_of_inGrace hgrace
    exact hauthority.of_cutOver h hcut hcut le_rfl hauthority.activating
  | abort hstate =>
    exact hauthority.of_before (isCutOver_of_abortable hstate) rfl rfl hsame rfl
      (fun index digest h => by cases h)
  | rollback hgrace =>
    refine hauthority.of_cutOver h (isCutOver_of_inGrace hgrace) rfl ?_ (fun epoch h => by cases h; rfl)
    change record.activeGeneration.get ≤ _
    simp only
    omega
  | cleanup hstate howner hproof hadmits hnext =>
    have hcut : isCutOver record.state = true := by
      rcases hstate with hgrace | hcompleted
      · exact isCutOver_of_inGrace hgrace
      · rw [hcompleted]
        rfl
    subst hnext
    refine hauthority.of_cutOver h hcut ?_ le_rfl (fun epoch hactivating => ?_)
    · dsimp only
      split_ifs
      · rfl
      · exact hcut
    · dsimp only at hactivating
      split_ifs at hactivating
      exact hauthority.activating epoch hactivating

/-! ## The backfill index -/

/-- The backfills issued so far have one index, and no forward receipt is older. -/
structure Backfilled (record : MigrationRecord) (log : List MigrationAction) : Prop where
  allocating : record.state = .allocating → ∀ issued ∈ log, issued.kind ≠ .backfill
  index : ∀ index, record.state = .backfilling index ∨ record.state = .mirroring index →
    ∀ issued ∈ log, issued.kind = .backfill → issued.snapshotIndex = some index
  unmirrored : (record.state = .allocating ∨ ∃ index, record.state = .backfilling index) →
    ∀ voter, record.receipts[receiptKey .forwardMirrored voter]? = none
  forward : ∀ voter receipt, record.receipts[receiptKey .forwardMirrored voter]? = some receipt →
    ∀ issued ∈ log, issued.kind = .backfill → ∀ index, issued.snapshotIndex = some index →
      index ≤ receipt.appliedIndex

variable {log : List MigrationAction}

section Quiet

variable (h : Backfilled record log) (haction : ∀ issued ∈ action, issued.kind ≠ .backfill)
  (hreceipts : ∀ voter, next.receipts[receiptKey .forwardMirrored voter]? =
    record.receipts[receiptKey .forwardMirrored voter]?)

include h haction hreceipts
omit [Blake3]

/-- A call that issues no backfill and stores no forward receipt keeps the facts. -/
theorem Backfilled.of_quiet
    (hallocating : next.state = .allocating → record.state = .allocating)
    (hbackfilling : ∀ index, next.state = .backfilling index → record.state = .backfilling index)
    (hmirroring : ∀ index, next.state = .mirroring index →
      record.state = .backfilling index ∨ record.state = .mirroring index) :
    Backfilled next (log ++ action.toList) := by
  have hlog : ∀ issued ∈ log ++ action.toList, issued.kind = .backfill → issued ∈ log := by
    intro issued hissued hkind
    rcases List.mem_append.mp hissued with hold | hnew
    · exact hold
    · exact absurd hkind (haction issued (Option.mem_toList.mp hnew))
  refine ⟨fun hstate issued hissued hkind => ?_, fun index hstate issued hissued hkind => ?_,
    fun hstate voter => ?_, fun voter receipt hlookup issued hissued hkind => ?_⟩
  · exact h.allocating (hallocating hstate) issued (hlog issued hissued hkind) hkind
  · have hbefore : record.state = .backfilling index ∨ record.state = .mirroring index := by
      rcases hstate with hstate | hstate
      · exact Or.inl (hbackfilling index hstate)
      · exact hmirroring index hstate
    exact h.index index hbefore issued (hlog issued hissued hkind) hkind
  · rw [hreceipts]
    refine h.unmirrored ?_ voter
    rcases hstate with hstate | ⟨index, hstate⟩
    · exact Or.inl (hallocating hstate)
    · exact Or.inr ⟨index, hbackfilling index hstate⟩
  · rw [hreceipts] at hlookup
    exact h.forward voter receipt hlookup issued (hlog issued hissued hkind) hkind

theorem Backfilled.of_frame (hstate : next.state = record.state) :
    Backfilled next (log ++ action.toList) :=
  h.of_quiet haction hreceipts hstate.symm.trans (fun _ => hstate.symm.trans)
    (fun _ hnext => Or.inr (hstate.symm.trans hnext))

end Quiet

theorem Backfilled.step (hbackfilled : Backfilled record log) (h : Accepted record c next action) :
    Backfilled next (log ++ action.toList) := by
  cases h with
  | claim | activateRetry | rollbackRetry =>
    exact hbackfilled.of_frame (by simp [action]) (fun _ => rfl) rfl
  | @backfill index hstate =>
    have hempty := hbackfilled.unmirrored (hstate.imp (fun h => h) fun h => ⟨index, h⟩)
    refine ⟨fun h => (by cases h), fun index' hnext issued hissued hkind => ?_,
      fun _ voter => hempty voter, fun voter receipt hlookup => ?_⟩
    · obtain rfl : index = index' := by rcases hnext with h | h <;> cases h; rfl
      rcases List.mem_append.mp hissued with hold | hnew
      · rcases hstate with hstate | hstate
        · exact absurd hkind (hbackfilled.allocating hstate issued hold)
        · exact hbackfilled.index index (Or.inl hstate) issued hold hkind
      · obtain rfl : issued = _ := by simpa using hnew
        rfl
    · rw [show record.receipts[receiptKey .forwardMirrored voter]? = none from hempty voter]
        at hlookup
      cases hlookup
  | @mirroring index hstate =>
    refine hbackfilled.of_quiet (by simp [action]) (fun _ => rfl) (fun h => (by cases h))
      (fun _ h => (by cases h)) (fun index' h => ?_)
    cases h
    exact hstate
  | @receipt receipt reported snapshotIndex hstate hkind hindex hadmits =>
    rw [Option.toList_none, List.append_nil]
    refine ⟨fun h => ?_, hbackfilled.index, fun h => ?_,
      fun voter stored hlookup issued hissued hbackfill index' hindex' => ?_⟩
    · rw [show record.state = .allocating from h] at hstate
      cases hstate
    · rcases h with h | ⟨_, h⟩ <;>
      · rw [show record.state = _ from h] at hstate
        cases hstate
    · rw [withReceipt_lookup] at hlookup
      split_ifs at hlookup
      · cases hlookup
        rw [hbackfilled.index snapshotIndex (Or.inr hstate) issued hissued hbackfill] at hindex'
        cases hindex'
        exact hindex
      · exact hbackfilled.forward voter stored hlookup issued hissued hbackfill index' hindex'
  | reverse hgrace hkind hadmits =>
    refine hbackfilled.of_frame (by simp [action]) (fun voter => ?_) rfl
    rw [withReceipt_lookup, if_neg]
    simp [hkind]
  | @cleanup replica owner index digest _ hstate howner hproof hadmits hnext =>
    subst hnext
    have hforward : ∀ voter, (record.withReceipt (.cleanup (record.receiptContext replica) index
        digest owner)).receipts[receiptKey .forwardMirrored voter]? =
          record.receipts[receiptKey .forwardMirrored voter]? := by
      intro voter
      rw [withReceipt_lookup, if_neg]
      simp [MigrationReceipt.cleanup]
    split_ifs
    · exact hbackfilled.of_quiet (by simp [action]) hforward (fun h => (by cases h))
        (fun _ h => (by cases h)) (fun _ h => (by cases h))
    · exact hbackfilled.of_frame (by simp [action]) hforward rfl
  | _ =>
    exact hbackfilled.of_quiet (by simp [action]) (fun _ => rfl) (fun h => (by cases h))
      (fun _ h => (by cases h)) (fun _ h => (by cases h))

omit [Blake3] in
theorem Initial.backfilled (h : Initial record) : Backfilled record [] := by
  exact ⟨by simp, by simp, fun _ voter => h.lookup_none _, by simp⟩

/-! ## Publication -/

def IsUnpublished (record : MigrationRecord) : Prop :=
  isCutOver record.state = false ∨
    (∃ epoch, record.state = .activating epoch) ∧
      record.activeGeneration = record.targetGeneration

/-- The cutover is published exactly in the later states. -/
def Published (record : MigrationRecord) (log : List MigrationAction) : Prop :=
  (∃ issued ∈ log, issued.kind = .publishActivation) ↔ ¬ record.IsUnpublished

omit [Blake3] in
theorem Published.of_quiet (h : Published record log)
    (haction : ∀ issued ∈ action, issued.kind ≠ .publishActivation)
    (hunpublished : next.IsUnpublished ↔ record.IsUnpublished) :
    Published next (log ++ action.toList) := by
  unfold Published at h ⊢
  rw [hunpublished, ← h]
  constructor
  · rintro ⟨issued, hissued, hkind⟩
    rcases List.mem_append.mp hissued with hold | hnew
    · exact ⟨issued, hold, hkind⟩
    · exact absurd hkind (haction issued (Option.mem_toList.mp hnew))
  · rintro ⟨issued, hissued, hkind⟩
    exact ⟨issued, List.mem_append_left _ hissued, hkind⟩

omit [Blake3] in
theorem not_isUnpublished_of_inGrace (h : record.inGrace = true) : ¬ record.IsUnpublished := by
  have hcut := isCutOver_of_inGrace h
  unfold inGrace at h
  rintro (hbefore | ⟨⟨epoch, hstate⟩, -⟩)
  · rw [hcut] at hbefore
    cases hbefore
  · rw [hstate] at h
    cases h

omit [Blake3] in
theorem not_isUnpublished_of_completed (h : record.state = .completed) :
    ¬ record.IsUnpublished := by
  rintro (hbefore | ⟨⟨epoch, hstate⟩, -⟩)
  · rw [h] at hbefore
    cases hbefore
  · rw [h] at hstate
    cases hstate

/-- The calls before the cutover, and the cutover itself, publish nothing. -/
theorem Published.step (hpublished : Published record log) (hauthority : Authority record)
    (h : Accepted record c next action) : Published next (log ++ action.toList) := by
  have hbefore : isCutOver record.state = false → next.IsUnpublished →
      (next.IsUnpublished ↔ record.IsUnpublished) := fun hrecord hnext =>
    ⟨fun _ => Or.inl hrecord, fun _ => hnext⟩
  cases h with
  | claim | activateRetry | reverse =>
    exact hpublished.of_quiet (by simp [action]) Iff.rfl
  | backfill hstate | mirroring hstate =>
    refine hpublished.of_quiet (by simp [action]) (hbefore ?_ (Or.inl rfl))
    rcases hstate with h | h <;> rw [h] <;> rfl
  | receipt hstate hkind hindex hadmits => exact hpublished.of_quiet (by simp) Iff.rfl
  | prepare hstate =>
    refine hpublished.of_quiet (by simp [action]) (hbefore ?_ (Or.inl rfl))
    rcases hstate with h | ⟨⟨_, h⟩, -⟩ <;> rw [h] <;> rfl
  | @activate epoch index digest hstate hepoch =>
    refine hpublished.of_quiet (by simp [action])
      (hbefore (by rw [hstate]; rfl) (Or.inr ⟨⟨epoch, rfl⟩, rfl⟩))
  | publish hstate =>
    exact ⟨fun _ => not_isUnpublished_of_inGrace rfl, fun _ =>
      ⟨_, List.mem_append_right _ (List.mem_singleton_self _), rfl⟩⟩
  | abort hstate =>
    exact hpublished.of_quiet (by simp [action])
      (hbefore (isCutOver_of_abortable hstate) (Or.inl rfl))
  | @rollback epoch generation hgrace hepoch hgeneration =>
    refine hpublished.of_quiet (by simp [action])
      ⟨fun hnext => ?_, fun hrecord => absurd hrecord (not_isUnpublished_of_inGrace hgrace)⟩
    -- The rollback generation lies beyond the target.
    have htarget : record.targetGeneration.get ≤ record.activeGeneration.get :=
      (hauthority.target (isCutOver_of_inGrace hgrace)).1
    rcases hnext with hnext | ⟨-, hactive⟩
    · cases hnext
    · obtain rfl : generation = record.targetGeneration := hactive
      omega
  | rollbackRetry hretry => exact hpublished.of_quiet (by simp [action]) Iff.rfl
  | cleanup hstate howner hproof hadmits hnext =>
    subst hnext
    split_ifs
    · refine hpublished.of_quiet (by simp [action])
        (iff_of_false (not_isUnpublished_of_completed rfl) ?_)
      rcases hstate with hgrace | hcompleted
      · exact not_isUnpublished_of_inGrace hgrace
      · exact not_isUnpublished_of_completed hcompleted
    · exact hpublished.of_quiet (by simp [action]) Iff.rfl

omit [Blake3] in
theorem Initial.published (h : Initial record) : Published record [] := by
  have hunpublished : record.IsUnpublished := Or.inl (by rw [h.state]; rfl)
  simp [Published, hunpublished]

/-- Everything a record keeps, given the actions issued so far. -/
structure Sound (record : MigrationRecord) (log : List MigrationAction) : Prop where
  receipted : Receipted record
  authority : Authority record
  backfilled : Backfilled record log
  published : Published record log

theorem Created.sound_after (h : Created record) (calls : List Call) :
    Sound (record.after calls) (record.issued calls) := by
  have hinitial := h.initial
  refine after_induction ⟨hinitial.receipted, hinitial.authority, hinitial.backfilled,
    hinitial.published⟩ (fun hsound haccepted => ?_) calls
  exact ⟨hsound.receipted.step haccepted, hsound.authority.step haccepted,
    hsound.backfilled.step haccepted, hsound.published.step hsound.authority haccepted⟩

end Step

end DtgProxy.Control.MigrationRecord

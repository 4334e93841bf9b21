import DtgProxy.Storage.FjallCurrent
import DtgProxy.Storage.ProviderEquivalence

/-! # Applying batches to all keyspaces

A call admits its batches one after another, checking redeliveries against the
identities that are stored, and then writes all new ones in a single commit.  A call
that fails at any point changes no keyspace.  Applying the batches one at a time
instead checks each against the identities of those before it and keeps what was
written before a failure, so the two agree only on lists that deliver no new index
twice and on those that fail before anything is written.
-/
namespace DtgProxy.Storage

open Kernel Lib

/-- What is recorded of a batch. -/
def CommittedShardBatch.identity [Blake3] (batch : CommittedShardBatch) : ReplayIdentity :=
  ⟨batch.raftTerm, batch.commandId, batch.mutationDigest⟩

/-- A store with all keyspaces that an apply writes. -/
@[ext] structure FjallReplica where
  store : FjallStore
  current : CurrentTables

namespace FjallReplica

abbrev appliedIndex (replica : FjallReplica) : ℕ := replica.store.tables.appliedIndex

abbrev identity (replica : FjallReplica) : OrderedMap ℕ ReplayIdentity :=
  replica.store.tables.identity

variable {acc' : FjallStore.Pending} {receipt : ApplyReceipt} {store : FjallStore}
  {e : StorageError}

section Apply

variable [Blake3]
variable {batch : CommittedShardBatch} {batches : List CommittedShardBatch} {applied : ℕ}
  {replica replica' : FjallReplica}
variable {acc : FjallStore.Pending} {receipts : List ApplyReceipt}
  {commit : Except StorageError Unit}

/-- The checks of a call, before anything is written. -/
def admitBatches (replica : FjallReplica) (batches : List CommittedShardBatch) :
    Except StorageError FjallStore.Pending := do
  batches.foldlM (fun _ batch => replica.store.verifyBinding batch.binding) ()
  replica.store.ensureNoRestoreInProgress
  batches.foldlM replica.store.stageBatch ⟨replica.appliedIndex, [], []⟩

/-- The keyspaces after the commit of the admitted batches. -/
def committed (replica : FjallReplica) (acc : FjallStore.Pending) : FjallReplica :=
  ⟨{ replica.store with tables := FjallStore.commitPending replica.store.tables acc },
    replica.current.stageAll (acc.batches.flatMap (·.mutations))⟩

/-- `apply_batches_sync`.  The result of the atomic commit is a parameter; the
keyspaces are returned also when the call fails. -/
def applyBatches (replica : FjallReplica) (commit : Except StorageError Unit)
    (batches : List CommittedShardBatch) :
    Except StorageError (List ApplyReceipt) × FjallReplica :=
  if batches = [] then (.ok [], replica)
  else
    match replica.admitBatches batches with
    | .error e => (.error e, replica)
    | .ok acc =>
      if acc.batches = [] then (.ok acc.receipts, replica)
      else
        match commit with
        | .error e => (.error e, replica)
        | .ok () => (.ok acc.receipts, replica.committed acc)

/-- `apply_sync`. -/
def apply (replica : FjallReplica) (commit : Except StorageError Unit)
    (batch : CommittedShardBatch) : Except StorageError ApplyReceipt × FjallReplica :=
  match replica.applyBatches commit [batch] with
  | (.error e, replica) => (.error e, replica)
  | (.ok receipts, replica) =>
    match receipts.getLast? with
    | some receipt => (.ok receipt, replica)
    | none => (.error (.internal "single apply did not return a receipt"), replica)

/-- The provided `apply_batches` of the trait: one batch at a time. -/
def applyEach (replica : FjallReplica) :
    List CommittedShardBatch → Except StorageError (List ApplyReceipt) × FjallReplica
  | [] => (.ok [], replica)
  | batch :: batches =>
    match replica.apply (.ok ()) batch with
    | (.error e, replica) => (.error e, replica)
    | (.ok receipt, replica) =>
      match replica.applyEach batches with
      | (.error e, replica) => (.error e, replica)
      | (.ok receipts, replica) => (.ok (receipt :: receipts), replica)

def write (replica : FjallReplica) (batch : CommittedShardBatch) : FjallReplica :=
  ⟨{ replica.store with
      tables := { replica.store.tables.writeBatch batch.raftIndex batch.mutations batch.identity with
        appliedIndex := batch.raftIndex } },
    batch.mutations.foldl CurrentTables.write replica.current⟩

/-- The keyspaces after a batch that fits. -/
def taken (replica : FjallReplica) (batch : CommittedShardBatch) : FjallReplica :=
  if batch.raftIndex ≤ replica.appliedIndex then replica else replica.write batch

/-- The store takes batches of the binding. -/
def Serves (replica : FjallReplica) (batch : CommittedShardBatch) : Prop :=
  replica.store.verifyBinding batch.binding = .ok () ∧
    replica.store.ensureNoRestoreInProgress = .ok ()

/-- The batch is recorded, or is the next one. -/
def Fits (recorded : Option ReplayIdentity) (applied : ℕ) (batch : CommittedShardBatch) : Prop :=
  if batch.raftIndex ≤ applied then recorded = some batch.identity
  else batch.raftIndex = applied + 1

/-- The store takes the batch on its own. -/
def Takes (replica : FjallReplica) (batch : CommittedShardBatch) : Prop :=
  replica.Serves batch ∧ Fits replica.identity[batch.raftIndex]? replica.appliedIndex batch

/-- All batches fit when redeliveries are compared with one set of identities. -/
def AllFit (identity : OrderedMap ℕ ReplayIdentity) : ℕ → List CommittedShardBatch → Prop
  | _, [] => True
  | applied, batch :: batches =>
    Fits identity[batch.raftIndex]? applied batch ∧
      AllFit identity (max applied batch.raftIndex) batches

/-- Each batch fits when the identities of those before it are recorded. -/
def EachFits : OrderedMap ℕ ReplayIdentity → ℕ → List CommittedShardBatch → Prop
  | _, _, [] => True
  | identity, applied, batch :: batches =>
    Fits identity[batch.raftIndex]? applied batch ∧
      EachFits (if batch.raftIndex ≤ applied then identity
        else identity.insert batch.raftIndex batch.identity)
        (max applied batch.raftIndex) batches

/-- The batches pass the checks of one call. -/
def Admits (replica : FjallReplica) (batches : List CommittedShardBatch) : Prop :=
  (∀ batch ∈ batches, replica.Serves batch) ∧
    AllFit replica.identity replica.appliedIndex batches

def receiptOf (applied : ℕ) (batch : CommittedShardBatch) : ApplyReceipt :=
  ⟨batch.raftIndex, batch.mutationDigest, decide (batch.raftIndex ≤ applied)⟩

def receiptsOf : ℕ → List CommittedShardBatch → List ApplyReceipt
  | _, [] => []
  | applied, batch :: batches =>
    receiptOf applied batch :: receiptsOf (max applied batch.raftIndex) batches

def freshOf : ℕ → List CommittedShardBatch → List CommittedShardBatch
  | _, [] => []
  | applied, batch :: batches =>
    if batch.raftIndex ≤ applied then freshOf applied batches
    else batch :: freshOf (max applied batch.raftIndex) batches

def reach (applied : ℕ) (batches : List CommittedShardBatch) : ℕ :=
  batches.foldl (fun applied batch => max applied batch.raftIndex) applied

/-- The answer and the keyspaces when all batches are taken. -/
def taking (replica : FjallReplica) (batches : List CommittedShardBatch) :
    Except StorageError (List ApplyReceipt) × FjallReplica :=
  (.ok (receiptsOf replica.appliedIndex batches),
    (freshOf replica.appliedIndex batches).foldl write replica)

/-! ## One call -/

/-- Why a batch does not fit. -/
def misfit (applied : ℕ) (batch : CommittedShardBatch) : StorageError :=
  if batch.raftIndex ≤ applied then .replayMismatch batch.raftIndex
  else .nonMonotonicIndex applied batch.raftIndex

theorem stageBatch_of_fits (h : Fits store.tables.identity[batch.raftIndex]? acc.applied batch) :
    store.stageBatch acc batch = .ok ⟨max acc.applied batch.raftIndex,
      acc.receipts ++ [receiptOf acc.applied batch],
      acc.batches ++ if batch.raftIndex ≤ acc.applied then [] else [batch]⟩ := by
  unfold Fits at h
  unfold FjallStore.stageBatch
  split_ifs at h ⊢ with hle hnext
  · rw [h, Nat.max_eq_left hle, List.append_nil]
    simp [receiptOf, hle, CommittedShardBatch.identity]
  · exact absurd h hnext
  · simp [receiptOf, hle, Nat.max_eq_right (Nat.le_of_not_le hle)]

theorem stageBatch_of_not_fits
    (h : ¬ Fits store.tables.identity[batch.raftIndex]? acc.applied batch) :
    store.stageBatch acc batch = .error (misfit acc.applied batch) := by
  unfold Fits at h
  unfold FjallStore.stageBatch misfit
  split_ifs at h ⊢ with hle hnext
  · cases hidentity : store.tables.identity[batch.raftIndex]? with
    | none => rfl
    | some replay =>
      refine if_neg fun hsame => h ?_
      rw [hidentity, Option.some_inj]
      exact ReplayIdentity.ext hsame.1 hsame.2.1 hsame.2.2
  · rfl
  · exact absurd (not_not.mp hnext) h

theorem foldlM_stageBatch_eq_ok_iff :
    batches.foldlM store.stageBatch acc = .ok acc' ↔
      AllFit store.tables.identity acc.applied batches ∧
        acc' = ⟨reach acc.applied batches, acc.receipts ++ receiptsOf acc.applied batches,
          acc.batches ++ freshOf acc.applied batches⟩ := by
  induction batches generalizing acc with
  | nil => simp [AllFit, reach, receiptsOf, freshOf, pure, Except.pure, eq_comm]
  | cons batch batches ih =>
    rw [List.foldlM_cons, AllFit, reach, List.foldl_cons, receiptsOf, freshOf]
    by_cases hfits : Fits store.tables.identity[batch.raftIndex]? acc.applied batch
    · rw [stageBatch_of_fits hfits]
      refine ih.trans (and_congr (and_iff_right hfits).symm (Eq.congr_right ?_))
      by_cases hle : batch.raftIndex ≤ acc.applied
      · simp [hle, reach]
      · simp [hle, reach]
    · rw [stageBatch_of_not_fits hfits]
      simp [hfits, bind, Except.bind]

/-- The history side of one commit: all batches, and the index of the last. -/
def writeAll (tables : FjallTables) (batches : List CommittedShardBatch) : FjallTables :=
  batches.foldl (fun tables batch => tables.writeBatch batch.raftIndex batch.mutations
    batch.identity) tables

theorem writeAll_withApplied (batches : List CommittedShardBatch) (tables : FjallTables)
    (applied : ℕ) :
    writeAll { tables with appliedIndex := applied } batches =
      { writeAll tables batches with appliedIndex := applied } := by
  induction batches generalizing tables with
  | nil => rfl
  | cons batch batches ih =>
    rw [writeAll, List.foldl_cons, FjallStore.writeBatch_withApplied]
    exact ih _

theorem store_foldl_write (fresh : List CommittedShardBatch) (replica : FjallReplica) :
    (fresh.foldl write replica).store = { replica.store with
      tables := { writeAll replica.store.tables fresh with
        appliedIndex := (fresh.getLast?.map (·.raftIndex)).getD
          replica.appliedIndex } } := by
  induction fresh generalizing replica with
  | nil => rfl
  | cons batch fresh ih =>
    rw [List.foldl_cons, ih]
    simp only [write]
    rw [writeAll_withApplied, List.getLast?_cons]
    cases fresh.getLast? <;> rfl

theorem current_foldl_write (fresh : List CommittedShardBatch) (replica : FjallReplica) :
    (fresh.foldl write replica).current =
      (fresh.flatMap (·.mutations)).foldl CurrentTables.write replica.current := by
  induction fresh generalizing replica with
  | nil => rfl
  | cons batch fresh ih =>
    rw [List.foldl_cons, ih, List.flatMap_cons, List.foldl_append]
    rfl

/-- The keyspaces after one commit are those after the new batches one by one. -/
theorem committed_eq (replica : FjallReplica) (receipts : List ApplyReceipt)
    {fresh : List CommittedShardBatch} (hfresh : fresh ≠ [])
    (hlast : ∀ last ∈ fresh.getLast?, last.raftIndex = applied) :
    replica.committed ⟨applied, receipts, fresh⟩ = fresh.foldl write replica := by
  obtain ⟨last, hget⟩ := Option.isSome_iff_exists.mp (List.getLast?_isSome.mpr hfresh)
  ext1
  · rw [store_foldl_write, hget, Option.map_some, Option.getD_some, hlast last hget, committed,
      FjallStore.commitPending, if_neg hfresh]
    rfl
  · rw [current_foldl_write, committed, CurrentTables.stageAll_eq]

omit [Blake3] in
theorem reach_of_freshOf_eq_nil
    (h : freshOf applied batches = []) : reach applied batches = applied := by
  induction batches with
  | nil => rfl
  | cons batch batches ih =>
    rw [freshOf] at h
    split_ifs at h with hle
    rw [reach, List.foldl_cons, Nat.max_eq_left hle]
    exact ih h

omit [Blake3] in
/-- The last new batch has the index reached. -/
theorem getLast?_freshOf :
    ∀ last ∈ (freshOf applied batches).getLast?, last.raftIndex = reach applied batches := by
  induction batches generalizing applied with
  | nil => simp [freshOf]
  | cons batch batches ih =>
    rw [freshOf, reach, List.foldl_cons]
    split_ifs with hle
    · rw [Nat.max_eq_left hle]
      exact ih
    · intro last hlast
      rw [List.getLast?_cons] at hlast
      cases hrest : (freshOf (max applied batch.raftIndex) batches).getLast? with
      | some =>
        rw [hrest] at hlast
        cases hlast
        exact ih _ hrest
      | none =>
        rw [hrest] at hlast
        cases hlast
        have hnone := reach_of_freshOf_eq_nil (List.getLast?_eq_none_iff.mp hrest)
        rw [reach] at hnone
        rw [Option.getD_none, hnone, Nat.max_eq_right (Nat.le_of_not_le hle)]

theorem admitBatches_eq_ok_iff (hbatches : batches ≠ []) :
    replica.admitBatches batches = .ok acc ↔ replica.Admits batches ∧
      acc = ⟨reach replica.appliedIndex batches, receiptsOf replica.appliedIndex batches,
        freshOf replica.appliedIndex batches⟩ := by
  rw [admitBatches, Result.check_eq_ok, Result.check_eq_ok, Result.foldlM_visit_eq_ok,
    foldlM_stageBatch_eq_ok_iff, List.nil_append, List.nil_append, Admits, and_assoc, ← and_assoc]
  refine and_congr_left fun _ => ⟨fun h batch hbatch => ⟨h.1 batch hbatch, h.2⟩, fun hserves => ?_⟩
  obtain ⟨batch, hbatch⟩ := List.exists_mem_of_ne_nil batches hbatches
  exact ⟨fun batch hbatch => (hserves batch hbatch).1, (hserves batch hbatch).2⟩

theorem applyBatches_of_admits (h : replica.Admits batches) :
    replica.applyBatches (.ok ()) batches = replica.taking batches := by
  rw [applyBatches]
  split_ifs with hbatches
  · rw [hbatches]
    rfl
  · rw [(admitBatches_eq_ok_iff hbatches).mpr ⟨h, rfl⟩]
    dsimp only
    split_ifs with hfresh
    · rw [taking, hfresh]
      rfl
    · rw [committed_eq replica _ hfresh getLast?_freshOf]
      rfl

/-- A call fails without effect, or all batches pass its checks and are taken. -/
theorem applyBatches_cases (replica : FjallReplica) (commit : Except StorageError Unit)
    (batches : List CommittedShardBatch) :
    (∃ e, replica.applyBatches commit batches = (.error e, replica)) ∨
      replica.Admits batches ∧ replica.applyBatches commit batches = replica.taking batches := by
  by_cases hbatches : batches = []
  · subst hbatches
    exact .inr ⟨⟨by simp, trivial⟩, rfl⟩
  · cases hadmitted : replica.admitBatches batches with
    | error e => exact .inl ⟨e, by rw [applyBatches, if_neg hbatches, hadmitted]⟩
    | ok =>
      obtain ⟨hadmits, rfl⟩ := (admitBatches_eq_ok_iff hbatches).mp hadmitted
      have htaking := applyBatches_of_admits hadmits
      simp only [applyBatches, if_neg hbatches, hadmitted] at htaking ⊢
      cases commit with
      | ok => exact .inr ⟨hadmits, htaking⟩
      | error e =>
        split_ifs at htaking ⊢
        · exact .inr ⟨hadmits, htaking⟩
        · exact .inl ⟨e, rfl⟩

/-! ## One batch at a time -/

theorem taking_single (replica : FjallReplica) (batch : CommittedShardBatch) :
    replica.taking [batch] =
      (.ok [receiptOf replica.appliedIndex batch], replica.taken batch) := by
  simp only [taking, receiptsOf, freshOf, taken]
  split_ifs <;> rfl

theorem admits_single : replica.Admits [batch] ↔ replica.Takes batch := by
  simp [Admits, AllFit, Takes]

theorem apply_of_takes (h : replica.Takes batch) :
    replica.apply (.ok ()) batch =
      (.ok (receiptOf replica.appliedIndex batch), replica.taken batch) := by
  rw [apply, applyBatches_of_admits (admits_single.mpr h), taking_single]
  rfl

/-- The batch is recorded with its own identity. -/
def Recorded (identity : OrderedMap ℕ ReplayIdentity) (batch : CommittedShardBatch) : Prop :=
  identity[batch.raftIndex]? = some batch.identity

theorem not_takes_of_error (h : replica.admitBatches [batch] = .error e) :
    ¬ replica.Takes batch := fun htakes => by
  cases h.symm.trans ((admitBatches_eq_ok_iff (List.cons_ne_nil batch [])).mpr
    ⟨admits_single.mpr htakes, rfl⟩)

theorem error_of_not_takes (h : ¬ replica.Takes batch) :
    ∃ e, replica.admitBatches [batch] = .error e := by
  cases hadmit : replica.admitBatches [batch] with
  | error e => exact ⟨e, rfl⟩
  | ok =>
    exact absurd (admits_single.mp
      ((admitBatches_eq_ok_iff (List.cons_ne_nil batch [])).mp hadmit).1) h

/-- A list whose first batch is refused or taken. -/
theorem applyEach_cons (replica : FjallReplica) (batch : CommittedShardBatch)
    (batches : List CommittedShardBatch) :
    (∃ e, replica.admitBatches [batch] = .error e ∧
        replica.applyEach (batch :: batches) = (.error e, replica)) ∨
      replica.Takes batch ∧ replica.applyEach (batch :: batches) =
        (((replica.taken batch).applyEach batches).1.map (receiptOf replica.appliedIndex batch :: ·),
          ((replica.taken batch).applyEach batches).2) := by
  rw [applyEach]
  by_cases htakes : replica.Takes batch
  · refine .inr ⟨htakes, ?_⟩
    rw [apply_of_takes htakes]
    dsimp only
    rcases (replica.taken batch).applyEach batches with ⟨result, last⟩
    cases result <;> rfl
  · obtain ⟨e, hadmit⟩ := error_of_not_takes htakes
    refine .inl ⟨e, hadmit, ?_⟩
    rw [apply, applyBatches, if_neg (List.cons_ne_nil _ _), hadmit]

theorem identity_taken (replica : FjallReplica) (batch : CommittedShardBatch) :
    (replica.taken batch).identity =
      if batch.raftIndex ≤ replica.appliedIndex then replica.identity
      else replica.identity.insert batch.raftIndex batch.identity := by
  unfold taken
  split_ifs
  · rfl
  · simp only [identity, write, FjallTables.writeBatch, FjallTables.identity_foldl_stageMutation]

theorem appliedIndex_taken (replica : FjallReplica) (batch : CommittedShardBatch) :
    (replica.taken batch).appliedIndex = max replica.appliedIndex batch.raftIndex := by
  unfold taken
  split_ifs with hle
  · exact (Nat.max_eq_left hle).symm
  · exact (Nat.max_eq_right (Nat.le_of_not_le hle)).symm

theorem serves_taken : (replica.taken batch).Serves = replica.Serves := by
  unfold taken
  split_ifs <;> rfl

theorem taking_cons (replica : FjallReplica) (batch : CommittedShardBatch)
    (batches : List CommittedShardBatch) :
    replica.taking (batch :: batches) =
      (((replica.taken batch).taking batches).1.map (receiptOf replica.appliedIndex batch :: ·),
        ((replica.taken batch).taking batches).2) := by
  rw [taking, taking, appliedIndex_taken, receiptsOf, freshOf, taken]
  split_ifs with hle
  · rw [Nat.max_eq_left hle]
    rfl
  · rfl

/-- One at a time, each batch is compared with what the earlier ones recorded. -/
theorem applyEach_eq_taking_iff :
    replica.applyEach batches = replica.taking batches ↔
      (∀ batch ∈ batches, replica.Serves batch) ∧
        EachFits replica.identity replica.appliedIndex batches := by
  induction batches generalizing replica with
  | nil => simp [applyEach, EachFits, taking, receiptsOf, freshOf]
  | cons batch batches ih =>
    have hrest := @ih (replica.taken batch)
    rw [serves_taken, identity_taken, appliedIndex_taken] at hrest
    rw [List.forall_mem_cons, EachFits, and_and_and_comm, ← hrest, taking_cons]
    rcases replica.applyEach_cons batch batches with ⟨e, hadmit, h⟩ | ⟨htakes, h⟩
    · rw [h]
      exact ⟨fun h => (nomatch (Prod.mk.inj h).1), fun htakes =>
        absurd htakes.1 (not_takes_of_error hadmit)⟩
    · rw [h]
      refine ⟨fun hsame => ⟨htakes, ?_⟩, fun hrest => by rw [hrest.2]⟩
      obtain ⟨hmap, hlast⟩ := Prod.mk.inj hsame
      refine Prod.ext ?_ hlast
      cases hresult : ((replica.taken batch).applyEach batches).1 with
      | error =>
        rw [hresult] at hmap
        cases hmap
      | ok =>
        rw [hresult] at hmap
        cases hmap
        rfl

/-! ## Lists that fail -/

/-- The batch is applied already, and recorded. -/
def Known (replica : FjallReplica) (batch : CommittedShardBatch) : Prop :=
  replica.Serves batch ∧ batch.raftIndex ≤ replica.appliedIndex ∧
    Recorded replica.identity batch

theorem Known.takes (h : replica.Known batch) : replica.Takes batch :=
  ⟨h.1, (if_pos h.2.1).mpr h.2.2⟩

/-- The list fails at a batch before which nothing is written.  Unless that batch has
another binding, all after it have the store's. -/
def FailsUnwritten (replica : FjallReplica) (batches : List CommittedShardBatch) : Prop :=
  ∃ before batch after, batches = before ++ batch :: after ∧
    (∀ earlier ∈ before, replica.Known earlier) ∧ ¬ replica.Takes batch ∧
    (replica.store.verifyBinding batch.binding = .ok () →
      ∀ later ∈ after, replica.store.verifyBinding later.binding = .ok ())

/-- Batches that are known leave nothing to write. -/
theorem foldlM_stageBatch_known (h : ∀ batch ∈ batches, replica.Known batch) (receipts) :
    ∃ receipts', batches.foldlM replica.store.stageBatch ⟨replica.appliedIndex, receipts, []⟩ =
      .ok ⟨replica.appliedIndex, receipts', []⟩ := by
  induction batches generalizing receipts with
  | nil => exact ⟨receipts, rfl⟩
  | cons batch batches ih =>
    obtain ⟨hknown, hrest⟩ := List.forall_mem_cons.mp h
    rw [List.foldlM_cons, stageBatch_of_fits hknown.takes.2, Nat.max_eq_left hknown.2.1,
      if_pos hknown.2.1]
    exact ih hrest _

/-- What a single batch is refused for. -/
theorem admitBatches_single (replica : FjallReplica) (batch : CommittedShardBatch) :
    replica.admitBatches [batch] = (do
      replica.store.verifyBinding batch.binding
      replica.store.ensureNoRestoreInProgress
      replica.store.stageBatch ⟨replica.appliedIndex, [], []⟩ batch) := by
  simp [admitBatches]

/-- A call fails as the first batch that is not known does on its own. -/
theorem admitBatches_refused {before after : List CommittedShardBatch}
    (hbefore : ∀ earlier ∈ before, replica.Known earlier)
    (hbatch : replica.admitBatches [batch] = .error e)
    (hafter : replica.store.verifyBinding batch.binding = .ok () →
      ∀ later ∈ after, replica.store.verifyBinding later.binding = .ok ()) :
    replica.admitBatches (before ++ batch :: after) = .error e := by
  have hserved := Result.foldlM_visit_eq_ok.mpr fun earlier hmem => (hbefore earlier hmem).1.1
  have htakes := not_takes_of_error hbatch
  rw [admitBatches_single] at hbatch
  rw [admitBatches, List.foldlM_append, hserved]
  simp only [bind, Except.bind, List.foldlM_cons] at hbatch ⊢
  cases hverify : replica.store.verifyBinding batch.binding with
  | error =>
    rw [hverify] at hbatch
    cases hbatch
    rfl
  | ok =>
    have hall := Result.foldlM_visit_eq_ok.mpr (hafter hverify)
    rw [hverify] at hbatch
    dsimp only at hbatch ⊢
    rw [hall]
    cases hidle : replica.store.ensureNoRestoreInProgress with
    | error =>
      rw [hidle] at hbatch
      exact hbatch
    | ok =>
      obtain ⟨receipts, hknown⟩ := foldlM_stageBatch_known hbefore []
      have hmisfit := fun hfits => htakes ⟨⟨hverify, hidle⟩, hfits⟩
      rw [hidle, stageBatch_of_not_fits hmisfit] at hbatch
      cases hbatch
      rw [List.foldlM_append, hknown]
      simp only [bind, Except.bind, List.foldlM_cons]
      rw [stageBatch_of_not_fits hmisfit]

theorem appliedIndex_le_applyEach (replica : FjallReplica) (batches : List CommittedShardBatch) :
    replica.appliedIndex ≤ (replica.applyEach batches).2.appliedIndex := by
  induction batches generalizing replica with
  | nil => exact le_rfl
  | cons batch batches ih =>
    rcases replica.applyEach_cons batch batches with ⟨e, -, h⟩ | ⟨-, h⟩
    · rw [h]
    · have hstep := appliedIndex_taken replica batch ▸ ih (replica.taken batch)
      rw [h]
      exact (le_max_left _ _).trans hstep

/-- One at a time, a list fails without effect exactly at a batch before which all are
known. -/
theorem applyEach_eq_error_iff :
    replica.applyEach batches = (.error e, replica) ↔
      ∃ before batch after, batches = before ++ batch :: after ∧
        (∀ earlier ∈ before, replica.Known earlier) ∧
        replica.admitBatches [batch] = .error e := by
  induction batches with
  | nil => simp [applyEach]
  | cons batch batches ih =>
    have hsplit : (∃ before first after, batch :: batches = before ++ first :: after ∧
        (∀ earlier ∈ before, replica.Known earlier) ∧ replica.admitBatches [first] = .error e) ↔
        replica.admitBatches [batch] = .error e ∨
          replica.Known batch ∧ replica.applyEach batches = (.error e, replica) := by
      rw [ih]
      constructor
      · rintro ⟨before, first, after, hlist, hbefore, hfirst⟩
        cases before with
        | nil =>
          cases hlist
          exact .inl hfirst
        | cons =>
          cases hlist
          obtain ⟨hknown, hrest⟩ := List.forall_mem_cons.mp hbefore
          exact .inr ⟨hknown, _, first, after, rfl, hrest, hfirst⟩
      · rintro (hfirst | ⟨hknown, before, first, after, rfl, hbefore, hfirst⟩)
        · exact ⟨[], batch, batches, rfl, by simp, hfirst⟩
        · exact ⟨batch :: before, first, after, rfl, List.forall_mem_cons.mpr ⟨hknown, hbefore⟩,
            hfirst⟩
    rw [hsplit]
    rcases replica.applyEach_cons batch batches with ⟨e', hadmit, h⟩ | ⟨htakes, h⟩
    · simp [h, hadmit, mt Known.takes (not_takes_of_error hadmit)]
    · have hmono := appliedIndex_taken replica batch ▸
        appliedIndex_le_applyEach (replica.taken batch) batches
      rw [h, or_iff_right fun hadmit => not_takes_of_error hadmit htakes]
      by_cases hle : batch.raftIndex ≤ replica.appliedIndex
      · have hknown : replica.Known batch := ⟨htakes.1, hle, (if_pos hle).mp htakes.2⟩
        rw [taken, if_pos hle]
        rcases replica.applyEach batches with ⟨result, last⟩
        cases result <;> simp [Except.map, hknown]
      · refine ⟨fun hsame => ?_, fun hknown => absurd hknown.1.2.1 hle⟩
        rw [(Prod.mk.inj hsame).2] at hmono
        exact absurd ((le_max_right _ _).trans hmono) hle

/-- A batch with the store's binding is not refused for a binding. -/
theorem admitBatches_single_error {binding : ReplicaBinding}
    (hbatch : replica.admitBatches [batch] = .error e)
    (hverify : replica.store.verifyBinding batch.binding = .ok ()) :
    replica.store.verifyBinding binding ≠ .error e := by
  have htakes := not_takes_of_error hbatch
  intro hother
  have hstale : e = .staleBinding replica.store.binding binding := by
    unfold FjallStore.verifyBinding at hverify hother
    split_ifs at hverify hother
    cases hother
    rfl
  rw [admitBatches_single, hverify] at hbatch
  subst hstale
  cases hidle : replica.store.ensureNoRestoreInProgress with
  | error =>
    rw [hidle] at hbatch
    cases hbatch
    unfold FjallStore.ensureNoRestoreInProgress at hidle
    split at hidle <;> cases hidle
  | ok =>
    rw [hidle, stageBatch_of_not_fits fun hfits => htakes ⟨⟨hverify, hidle⟩, hfits⟩, misfit] at hbatch
    split_ifs at hbatch <;> cases hbatch

theorem applyBatches_eq_error (h : replica.applyBatches commit batches = (.error e, replica')) :
    replica' = replica := by
  rcases replica.applyBatches_cases commit batches with ⟨e', he⟩ | ⟨-, hok⟩
  · cases he.symm.trans h
    rfl
  · cases hok.symm.trans h

/-- A single batch is taken only as the next one, which is then written to all
keyspaces, or as the exact redelivery of a recorded one, which changes nothing.  A call
that fails, at a check or at its commit, changes nothing.  And a call gives the answer
and leaves the keyspaces that its batches applied one at a time do exactly if each batch
is the next one or is recorded, both before the call and after the batches before it, or
if the list fails before anything is written. -/
theorem apply_exactly_once (replica : FjallReplica) (batches : List CommittedShardBatch) :
    (∀ commit batch receipt replica', replica.apply commit batch = (.ok receipt, replica') →
      (batch.raftIndex = replica.appliedIndex + 1 ∧ receipt.replayed = false ∧
        replica' = replica.write batch) ∨
      (batch.raftIndex ≤ replica.appliedIndex ∧ Recorded replica.identity batch ∧
        receipt.replayed = true ∧ replica' = replica)) ∧
    (∀ commit e replica', replica.applyBatches commit batches = (.error e, replica') →
      replica' = replica) ∧
    (replica.applyBatches (.ok ()) batches = replica.applyEach batches ↔
      (replica.Admits batches ∧ EachFits replica.identity replica.appliedIndex batches) ∨
      replica.FailsUnwritten batches) := by
  refine ⟨fun commit batch receipt replica' h => ?_, fun _ _ _ => applyBatches_eq_error,
    fun hagree => ?_, ?_⟩
  · rw [apply] at h
    rcases replica.applyBatches_cases commit [batch] with ⟨e, he⟩ | ⟨hadmits, hok⟩
    · rw [he] at h
      cases h
    · rw [hok, taking_single] at h
      cases h
      have hfits := (admits_single.mp hadmits).2
      unfold Fits at hfits
      unfold taken receiptOf
      split_ifs at hfits ⊢ with hle
      · exact .inr ⟨hle, hfits, decide_eq_true hle, rfl⟩
      · exact .inl ⟨hfits, decide_eq_false hle, rfl⟩
  · rcases replica.applyBatches_cases (.ok ()) batches with ⟨e, hcall⟩ | ⟨hadmits, hcall⟩
    · obtain ⟨before, batch, after, rfl, hbefore, hbatch⟩ :=
        applyEach_eq_error_iff.mp (hagree.symm.trans hcall)
      refine .inr ⟨before, batch, after, rfl, hbefore, not_takes_of_error hbatch, fun hverify => ?_⟩
      -- otherwise the call fails for the binding of a later batch
      cases hall : (before ++ batch :: after).foldlM
          (fun _ batch => replica.store.verifyBinding batch.binding) () with
      | ok => exact fun later hmem => Result.foldlM_visit_eq_ok.mp hall later (by simp [hmem])
      | error =>
        rw [applyBatches, if_neg (by simp), admitBatches, hall] at hcall
        cases hcall
        obtain ⟨other, -, hother⟩ := Result.exists_of_foldlM_visit_eq_error hall
        exact absurd hother (admitBatches_single_error hbatch hverify)
    · exact .inl ⟨hadmits, (applyEach_eq_taking_iff.mp (hagree.symm.trans hcall)).2⟩
  · rintro (⟨hadmits, heach⟩ | ⟨before, batch, after, rfl, hbefore, htakes, hafter⟩)
    · rw [applyBatches_of_admits hadmits]
      exact (applyEach_eq_taking_iff.mpr ⟨hadmits.1, heach⟩).symm
    · obtain ⟨e, hbatch⟩ := error_of_not_takes htakes
      rw [applyEach_eq_error_iff.mpr ⟨before, batch, after, rfl, hbefore, hbatch⟩, applyBatches,
        if_neg (by simp), admitBatches_refused hbefore hbatch hafter]

end Apply

def sampleReplica : FjallReplica :=
  ⟨⟨sampleBinding .fjall, sampleBinding .fjall, none, none, none, FjallTables.empty⟩,
    CurrentTables.empty⟩

/-- The first batch and its redelivery: one call refuses the list, one at a time the
second delivery is recognised. -/
theorem redelivery_in_one_call :
    letI := foldHash
    let batch := sampleBatch 0 (.putVertex sampleVertex)
    ((sampleReplica.applyBatches (.ok ()) [batch, batch]).1 = .error (.replayMismatch 1)) ∧
      ((sampleReplica.applyEach [batch, batch]).1.map (·.map (·.replayed)) =
        .ok [false, true]) := by
  decide +kernel

end FjallReplica

end DtgProxy.Storage

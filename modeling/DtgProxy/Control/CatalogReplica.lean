import DtgProxy.Control.Catalog

/-! # Replicas of the catalog

A replica holds a snapshot of the catalog and installs later ones.  It refuses a
snapshot of an earlier version, one of its own version with other contents, and
one in which a placement epoch went back.  The authority does not compare epochs
when it replaces a placement, so a replica can follow it exactly as long as no
accepted replacement lowers one.
-/
namespace DtgProxy.Control

open Kernel Lib Storage Result LineageEntry CatalogState

section General

variable [Blake3]

instance : DecidableEq CatalogState := fun _ _ =>
  decidable_of_iff _ (CatalogState.ext_iff).symm

structure CatalogReplica where
  snapshot : CatalogState
deriving DecidableEq

variable {replica : CatalogReplica}

namespace CatalogReplica

def new (snapshot : CatalogState) : Except ControlError CatalogReplica := do
  snapshot.placements.toList.foldlM (fun _ entry => entry.2.validate) ()
  .ok ⟨snapshot⟩

/-- The check of one placement of a newer snapshot. -/
def checkPlacement (replica : CatalogReplica) (entry : ShardKey × ShardPlacement) :
    Except ControlError Unit := do
  entry.2.validate
  match replica.snapshot.placements[entry.1]? with
  | some current =>
    if entry.2.placementEpoch < current.placementEpoch then
      .error (.catalogEpochRegression (ofLex entry.1).1 (ofLex entry.1).2 current.placementEpoch
        entry.2.placementEpoch)
    else .ok ()
  | none => .ok ()

/-- Installs a snapshot; the flag says whether it was a new one. -/
def install (replica : CatalogReplica) (snapshot : CatalogState) :
    Except ControlError (Bool × CatalogReplica) :=
  if snapshot.version < replica.snapshot.version then
    .error (.catalogRevisionRegression replica.snapshot.version snapshot.version)
  else if snapshot.version = replica.snapshot.version then
    if snapshot = replica.snapshot then .ok (false, replica)
    else .error (.catalogRevisionConflict snapshot.version)
  else do
    snapshot.placements.toList.foldlM (fun _ entry => replica.checkPlacement entry) ()
    .ok (true, ⟨snapshot⟩)

theorem checkPlacement_eq_ok {entry : ShardKey × ShardPlacement} :
    replica.checkPlacement entry = .ok () ↔
      entry.2.validate = .ok () ∧
        ∀ current, replica.snapshot.placements[entry.1]? = some current →
          current.placementEpoch ≤ entry.2.placementEpoch := by
  unfold checkPlacement
  rw [check_eq_ok]
  cases hlookup : replica.snapshot.placements[entry.1]? with
  | none => simp
  | some current =>
    by_cases hepoch : entry.2.placementEpoch < current.placementEpoch
    · simp [hepoch]
    · simp [hepoch, not_lt.mp hepoch]

/-- A snapshot of a later version is installed exactly when its placements are
valid and none has an earlier epoch. -/
theorem install_newer {snapshot : CatalogState}
    (hversion : replica.snapshot.version < snapshot.version) :
    (∃ changed, replica.install snapshot = .ok (changed, ⟨snapshot⟩)) ↔
      ∀ (key : ShardKey) (placement : ShardPlacement),
        snapshot.placements[key]? = some placement →
        placement.validate = .ok () ∧
          ∀ current : ShardPlacement, replica.snapshot.placements[key]? = some current →
            current.placementEpoch ≤ placement.placementEpoch := by
  have hnot : ¬ snapshot.version < replica.snapshot.version := by
    rw [UInt64.not_lt]
    exact UInt64.le_of_lt hversion
  have hne : snapshot.version ≠ replica.snapshot.version := (UInt64.ne_of_lt hversion).symm
  unfold install
  rw [if_neg hnot, if_neg hne]
  simp only [check_eq_ok, foldlM_visit_eq_ok, checkPlacement_eq_ok,
    Except.ok.injEq, Prod.mk.injEq, and_true, exists_and_left, exists_eq']
  constructor
  · intro h key placement hlookup
    exact h (key, placement) (Std.ExtTreeMap.mem_toList_iff_getElem?_eq_some.mpr hlookup)
  · intro h entry hentry
    exact h entry.1 entry.2 (Std.ExtTreeMap.mem_toList_iff_getElem?_eq_some.mp hentry)

end CatalogReplica

variable {more : List CatalogCommand} {placement : ShardPlacement} {command : CatalogCommand}

namespace CatalogState

variable {catalog next : CatalogState} {commands : List CatalogCommand}
variable {last : CatalogState}

def replay (catalog : CatalogState) (commands : List CatalogCommand) :
    Except ControlError CatalogState :=
  commands.foldlM apply catalog

theorem replay_append :
    catalog.replay (commands ++ more) = .ok last ↔
      ∃ middle, catalog.replay commands = .ok middle ∧ middle.replay more = .ok last := by
  unfold replay
  rw [List.foldlM_append, bind_eq_ok]

/-! ## What an accepted command does -/

omit [Blake3] in
/-- The lineage after a placement: the old entries and the new generations. -/
theorem extendLineage_eq_ok {lineage next : List LineageEntry}
    {entry : BackendGeneration × Digest32} (h : extendLineage lineage entry = .ok next) :
    lineage ⊆ next ∧
      ((lineage.map generation).Nodup → (next.map generation).Nodup) := by
  unfold extendLineage at h
  split at h
  · split_ifs at h
    cases h
    exact ⟨List.Subset.refl _, id⟩
  · next hfind =>
    cases h
    refine ⟨List.subset_append_left _ _, fun hnodup => ?_⟩
    rw [List.map_append, List.nodup_append]
    refine ⟨hnodup, List.nodup_singleton _, fun generation hold other hnew => ?_⟩
    obtain ⟨known, hknown, rfl⟩ := List.mem_map.mp hold
    rw [List.map_singleton, List.mem_singleton] at hnew
    rw [hnew]
    simpa using List.find?_eq_none.mp hfind known hknown

omit [Blake3] in
theorem foldlM_extendLineage {entries : List (BackendGeneration × Digest32)}
    {lineage next : List LineageEntry} (h : entries.foldlM extendLineage lineage = .ok next) :
    lineage ⊆ next ∧
      ((lineage.map generation).Nodup → (next.map generation).Nodup) := by
  refine foldlM_invariant (fun current => lineage ⊆ current ∧
    ((lineage.map generation).Nodup → (current.map generation).Nodup))
    (fun current entry next hcurrent hstep => ?_) entries ⟨List.Subset.refl _, id⟩ h
  obtain ⟨hsubset, hnodup⟩ := extendLineage_eq_ok hstep
  exact ⟨List.Subset.trans hcurrent.1 hsubset, fun hold => hnodup (hcurrent.2 hold)⟩

/-- A placement is validated, becomes the one of its shard and extends the lineage. -/
theorem putPlacement_eq_ok (h : catalog.putPlacement placement = .ok next) :
    placement.validate = .ok () ∧
      next.placements = catalog.placements.insert placement.key placement ∧
      ∃ (entries : List (BackendGeneration × Digest32)) (lineage : List LineageEntry),
        entries.foldlM extendLineage
          (catalog.lineageOf placement.graphId placement.shardId) = .ok lineage ∧
        next.lineage = catalog.lineage.insert placement.key
          (lineage.insertionSort fun a b => a.generation ≤ b.generation) := by
  obtain ⟨hvalid, hrest⟩ := check_eq_ok.mp h
  dsimp only at hrest
  split_ifs at hrest with hpinned
  · cases hrest
  · obtain ⟨lineage, hlineage, hnext⟩ := bind_eq_ok.mp hrest
    cases hnext
    exact ⟨hvalid, rfl, _, lineage, hlineage, rfl⟩

/-- An accepted command puts a placement, or leaves placements and lineage. -/
theorem apply_cases (h : catalog.apply command = .ok next) :
    (∃ version placement updated, command = .putPlacement version placement ∧
      catalog.putPlacement placement = .ok updated ∧ next.placements = updated.placements ∧
      next.lineage = updated.lineage) ∨
    ((∀ version placement, command ≠ .putPlacement version placement) ∧
      next.placements = catalog.placements ∧ next.lineage = catalog.lineage) := by
  unfold apply at h
  split at h
  · cases h
  obtain ⟨updated, hupdate, hnext⟩ := bind_eq_ok.mp h
  split_ifs at hnext
  cases hnext
  cases command with
  | putPlacement version placement =>
    exact Or.inl ⟨version, placement, updated, rfl, hupdate, rfl, rfl⟩
  | pinRetention version graphId shardId generation pin =>
    refine Or.inr ⟨fun _ _ => nofun, ?_⟩
    change catalog.pinRetention graphId shardId generation pin = .ok updated at hupdate
    unfold pinRetention at hupdate
    split_ifs at hupdate
    cases hupdate
    exact ⟨rfl, rfl⟩
  | unpinRetention version graphId shardId generation pin =>
    refine Or.inr ⟨fun _ _ => nofun, ?_⟩
    change catalog.unpinRetention graphId shardId generation pin = .ok updated at hupdate
    unfold unpinRetention at hupdate
    split at hupdate
    · cases hupdate
    dsimp only at hupdate
    split at hupdate
    · cases hupdate
      exact ⟨rfl, rfl⟩
    · cases hupdate
      exact ⟨rfl, rfl⟩

/-- What every catalog of a history satisfies. -/
structure Consistent (catalog : CatalogState) : Prop where
  valid : ∀ (key : ShardKey) (placement : ShardPlacement),
    catalog.placements[key]? = some placement → placement.validate = .ok ()
  unique : ∀ graphId shardId,
    ((catalog.lineageOf graphId shardId).map LineageEntry.generation).Nodup

/-- The lineage entries of the earlier catalog are still there. -/
def LineageKept (catalog next : CatalogState) : Prop :=
  ∀ graphId shardId, catalog.lineageOf graphId shardId ⊆ next.lineageOf graphId shardId

theorem consistent_new : Consistent new := by
  constructor
  · intro key placement hlookup
    cases hlookup
  · intro graphId shardId
    simp [lineageOf, new]

theorem lineageOf_putPlacement (h : catalog.putPlacement placement = .ok next) (graphId : GraphId)
    (shardId : ShardId) :
    catalog.lineageOf graphId shardId ⊆ next.lineageOf graphId shardId ∧
      (((catalog.lineageOf graphId shardId).map generation).Nodup →
        ((next.lineageOf graphId shardId).map generation).Nodup) := by
  obtain ⟨-, -, entries, lineage, hfold, hlineage⟩ := putPlacement_eq_ok h
  by_cases hkey : placement.key = toLex (graphId, shardId)
  · obtain ⟨rfl, rfl⟩ : placement.graphId = graphId ∧ placement.shardId = shardId := by
      simpa [ShardPlacement.key] using hkey
    have hnext : next.lineageOf placement.graphId placement.shardId =
        lineage.insertionSort fun a b => a.generation ≤ b.generation := by
      unfold lineageOf
      rw [hlineage, hkey, OrderedMap.lookup_insert_self, Option.getD_some]
    have hperm := List.perm_insertionSort (fun a b : LineageEntry => a.generation ≤ b.generation)
      lineage
    obtain ⟨hsubset, hnodup⟩ := foldlM_extendLineage hfold
    rw [hnext]
    refine ⟨fun entry hentry => hperm.mem_iff.mpr (hsubset hentry), fun hold => ?_⟩
    exact (hperm.map generation).nodup_iff.mpr (hnodup hold)
  · have hnext : next.lineageOf graphId shardId = catalog.lineageOf graphId shardId := by
      unfold lineageOf
      rw [hlineage, OrderedMap.lookup_insert_of_ne _ _ hkey]
    rw [hnext]
    exact ⟨List.Subset.refl _, id⟩

theorem Consistent.apply (hcatalog : Consistent catalog) (h : catalog.apply command = .ok next) :
    Consistent next ∧ LineageKept catalog next := by
  rcases apply_cases h with ⟨_, placement, updated, -, hput, hplacements, hlineage⟩ |
    ⟨-, hplacements, hlineage⟩
  · obtain ⟨hvalid, hinsert, -⟩ := putPlacement_eq_ok hput
    have hof : ∀ graphId shardId, next.lineageOf graphId shardId =
        updated.lineageOf graphId shardId := fun _ _ => by rw [lineageOf, lineageOf, hlineage]
    refine ⟨⟨fun key other hother => ?_, fun graphId shardId => ?_⟩, fun graphId shardId => ?_⟩
    · rw [hplacements, hinsert, OrderedMap.lookup_insert] at hother
      split_ifs at hother
      · cases hother
        exact hvalid
      · exact hcatalog.valid key other hother
    · rw [hof]
      exact (lineageOf_putPlacement hput graphId shardId).2 (hcatalog.unique graphId shardId)
    · rw [hof]
      exact (lineageOf_putPlacement hput graphId shardId).1
  · have hof : ∀ graphId shardId, next.lineageOf graphId shardId =
        catalog.lineageOf graphId shardId := fun _ _ => by rw [lineageOf, lineageOf, hlineage]
    refine ⟨⟨?_, fun graphId shardId => ?_⟩, fun graphId shardId => ?_⟩
    · rw [hplacements]
      exact hcatalog.valid
    · rw [hof]
      exact hcatalog.unique graphId shardId
    · rw [hof]
      exact List.Subset.refl _

/-- A history keeps a catalog consistent, its lineage entries, and counts its
commands in the version. -/
theorem Consistent.replay (hcatalog : Consistent catalog) (h : catalog.replay commands = .ok last) :
    Consistent last ∧ LineageKept catalog last ∧
      last.version.toNat = catalog.version.toNat + commands.length := by
  induction commands generalizing catalog with
  | nil =>
    cases h
    exact ⟨hcatalog, fun _ _ => List.Subset.refl _, rfl⟩
  | cons command commands ih =>
    obtain ⟨next, hnext, hrest⟩ := bind_eq_ok.mp h
    obtain ⟨hconsistent, hkept⟩ := hcatalog.apply hnext
    obtain ⟨hlast, hkept', hversion⟩ := ih hconsistent hrest
    refine ⟨hlast, fun graphId shardId =>
      List.Subset.trans (hkept graphId shardId) (hkept' graphId shardId), ?_⟩
    rw [hversion, (apply_version hnext).2, List.length_cons]
    omega

/-- No accepted replacement of a placement lowers its epoch. -/
def EpochsAscend (commands : List CatalogCommand) : Prop :=
  ∀ (before : List CatalogCommand) (version : UInt64) (placement : ShardPlacement)
    (rest : List CatalogCommand) (catalog : CatalogState) (previous : ShardPlacement),
    commands = before ++ .putPlacement version placement :: rest →
    CatalogState.new.replay before = .ok catalog →
    catalog.placements[placement.key]? = some previous →
    previous.placementEpoch ≤ placement.placementEpoch

/-- Every shard of the earlier catalog is placed later, at no earlier epoch. -/
def EpochsKept (catalog next : CatalogState) : Prop :=
  ∀ (key : ShardKey) (current : ShardPlacement), catalog.placements[key]? = some current →
    ∃ placement, next.placements[key]? = some placement ∧
      current.placementEpoch ≤ placement.placementEpoch

theorem EpochsAscend.kept {before rest : List CatalogCommand}
    (h : EpochsAscend (before ++ commands ++ rest))
    (hbefore : new.replay before = .ok catalog)
    (hlast : catalog.replay commands = .ok last) : EpochsKept catalog last := by
  induction commands generalizing before catalog with
  | nil =>
    cases hlast
    exact fun key current hcurrent => ⟨current, hcurrent, le_rfl⟩
  | cons command commands ih =>
    obtain ⟨next, hnext, hrest⟩ := bind_eq_ok.mp hlast
    have hbefore' : new.replay (before ++ [command]) = .ok next := by
      rw [replay_append]
      refine ⟨catalog, hbefore, ?_⟩
      rw [replay, List.foldlM_cons, hnext]
      rfl
    have hlater := ih (by simpa using h) hbefore' hrest
    intro key current hcurrent
    have hstep : ∃ placement, next.placements[key]? = some placement ∧
        current.placementEpoch ≤ placement.placementEpoch := by
      rcases apply_cases hnext with ⟨version, placement, updated, rfl, hput, hplacements, -⟩ |
        ⟨-, hplacements, -⟩
      · obtain ⟨-, hinsert, -⟩ := putPlacement_eq_ok hput
        rw [hplacements, hinsert, OrderedMap.lookup_insert]
        split_ifs with hkey
        · subst hkey
          exact ⟨placement, rfl, h before version placement (commands ++ rest) catalog
            current (by simp) hbefore hcurrent⟩
        · exact ⟨current, hcurrent, le_rfl⟩
      · rw [hplacements]
        exact ⟨current, hcurrent, le_rfl⟩
    obtain ⟨placement, hplacement, hle⟩ := hstep
    obtain ⟨final, hfinal, hle'⟩ := hlater key placement hplacement
    exact ⟨final, hfinal, hle.trans hle'⟩

/-- A replica of the catalog after a part of a history, and the catalog after a
longer part of it. -/
def Follows (commands : List CatalogCommand) : Prop :=
  ∀ (before more rest : List CatalogCommand) (catalog next : CatalogState),
    commands = before ++ more ++ rest → CatalogState.new.replay before = .ok catalog →
    catalog.replay more = .ok next →
    ∃ changed, (CatalogReplica.mk catalog).install next = .ok (changed, ⟨next⟩)

theorem version_lt_of_replay (hcatalog : Consistent catalog) (h : catalog.replay more = .ok next)
    (hmore : more ≠ []) :
    catalog.version < next.version := by
  have hversion := (hcatalog.replay h).2.2
  have hlength := List.length_pos_of_ne_nil hmore
  rw [UInt64.lt_iff_toNat_lt]
  omega

theorem EpochsAscend.follows (h : EpochsAscend commands) :
    Follows commands := by
  intro before more rest catalog next hcommands hbefore hmore
  subst hcommands
  have hcatalog := (consistent_new.replay hbefore).1
  by_cases hnil : more = []
  · subst hnil
    cases hmore
    refine ⟨false, ?_⟩
    unfold CatalogReplica.install
    rw [if_neg (UInt64.lt_irrefl _), if_pos rfl, if_pos rfl]
  · refine (CatalogReplica.install_newer (version_lt_of_replay hcatalog hmore hnil)).mpr ?_
    intro key placement hplacement
    refine ⟨(hcatalog.replay hmore).1.valid key placement hplacement, fun current hcurrent => ?_⟩
    obtain ⟨placement', hplacement', hle⟩ := h.kept hbefore hmore key current hcurrent
    rw [hplacement] at hplacement'
    cases hplacement'
    exact hle

theorem Follows.epochsAscend (hlast : new.replay commands = .ok last)
    (h : Follows commands) :
    EpochsAscend commands := by
  intro before version placement rest catalog previous hcommands hbefore hprevious
  subst hcommands
  rw [List.append_cons, replay_append] at hlast
  obtain ⟨next, hnext, -⟩ := hlast
  obtain ⟨catalog', hbefore', hput⟩ := replay_append.mp hnext
  rw [hbefore] at hbefore'
  cases hbefore'
  have hcatalog := (consistent_new.replay hbefore).1
  have hversion := version_lt_of_replay hcatalog hput (List.cons_ne_nil _ _)
  have hinstall := h before [.putPlacement version placement] rest catalog next (by simp) hbefore
    hput
  have hplaced : next.placements[placement.key]? = some placement := by
    obtain ⟨_, happlied, hnil⟩ := bind_eq_ok.mp hput
    cases hnil
    rcases apply_cases happlied with ⟨_, _, updated, hcommand, hupdated, hplacements, -⟩ | ⟨hother, -⟩
    · cases hcommand
      rw [hplacements, (putPlacement_eq_ok hupdated).2.1, OrderedMap.lookup_insert_self]
    · exact absurd rfl (hother version placement)
  exact ((CatalogReplica.install_newer hversion).mp hinstall _ placement hplaced).2 previous
    hprevious

/-- Along an accepted history lineage entries stay as they are, and a replica of
any state of the history can install every later one exactly when no accepted
replacement lowers a placement epoch. -/
theorem replicas_follow_iff {commands : List CatalogCommand} {last : CatalogState}
    (h : CatalogState.new.replay commands = .ok last) :
    (∀ (before more rest : List CatalogCommand) (catalog next : CatalogState),
      commands = before ++ more ++ rest → CatalogState.new.replay before = .ok catalog →
      catalog.replay more = .ok next →
      ∀ graphId shardId, ∀ entry ∈ catalog.lineageOf graphId shardId,
        entry ∈ next.lineageOf graphId shardId ∧
          ∀ other ∈ next.lineageOf graphId shardId,
            other.generation = entry.generation → other = entry) ∧
    (Follows commands ↔ EpochsAscend commands) := by
  refine ⟨fun before more rest catalog next hcommands hbefore hmore graphId shardId entry hentry => ?_,
    fun hfollows => hfollows.epochsAscend h, fun hascend => hascend.follows⟩
  obtain ⟨hnext, hkept, -⟩ := (consistent_new.replay hbefore).1.replay hmore
  have hmem := hkept graphId shardId hentry
  exact ⟨hmem, fun other hother hgeneration =>
    List.inj_on_of_nodup_map (hnext.unique graphId shardId) hother hmem hgeneration⟩

def epochOf (catalog : CatalogState) (key : ShardKey) : Option PlacementEpoch :=
  (catalog.placements[key]?).map ShardPlacement.placementEpoch

end CatalogState

end General

/-! ## Two histories on fixed inputs -/

namespace CatalogReplica

def sampleBackend : BackendClass := .fjall

def sampleReplica : ReplicaBinding :=
  letI := foldHash
  { clusterId := 1
    graphId := 1
    shardId := 1
    placementEpoch := 1
    replicaId := 1
    backendGeneration := 1
    backendClassDigest := sampleBackend.digest
    providerKind := .fjall
    contractVersion := 1
    layoutVersion := 1
    capabilityDigest := sampleBackend.requiredCapabilities.digest
    namespaceId := "graph-1-shard-1"
    endpointProfileRef := "local-fjall"
    credentialRef := "env://DTG_FJALL_ROOT"
    role := .active }

theorem check_sampleReplica : sampleReplica.check = .ok () := by
  decide +kernel

theorem check_sampleRecord :
    @ReplicaBindingRecord.check foldHash ⟨sampleReplica, check_sampleReplica⟩ sampleBackend =
      .ok () := by
  decide +kernel

def placementAt (epoch : PlacementEpoch) : @ShardPlacement foldHash :=
  letI := foldHash
  { graphId := 1
    shardId := 1
    placementEpoch := epoch
    activeGeneration := 1
    backendClass := sampleBackend
    replicas := [⟨⟨{ sampleReplica with placementEpoch := epoch }, check_sampleReplica⟩,
      sampleBackend, check_sampleRecord⟩] }

/-- Two placements of the sample shard, one after the other. -/
def placeTwice (first second : PlacementEpoch) : List (@CatalogCommand foldHash) :=
  letI := foldHash
  [.putPlacement 0 (placementAt first), .putPlacement 1 (placementAt second)]

def epochOne : PlacementEpoch := 1

def epochTwo : PlacementEpoch := 2

end CatalogReplica

namespace CatalogState

open CatalogReplica

/-- The catalog after one placement. -/
def placedOnce (epoch : PlacementEpoch) : Except ControlError (@CatalogState foldHash) :=
  letI := foldHash
  CatalogState.new.replay [.putPlacement 0 (placementAt epoch)]

def atOne : @CatalogState foldHash := Result.value (placedOnce epochOne) (by decide +kernel)

def atTwo : @CatalogState foldHash := Result.value (placedOnce epochTwo) (by decide +kernel)

/-- The placement of `atTwo` replaced by one of an earlier epoch. -/
def loweredAtTwo : @CatalogState foldHash :=
  letI := foldHash
  Result.value (atTwo.replay [.putPlacement 1 (placementAt epochOne)]) (by decide +kernel)

theorem epoch_atOne :
    letI := foldHash
    atOne.epochOf (placementAt epochOne).key = some epochOne := by
  decide +kernel

theorem epochsAscend_placeTwice :
    letI := foldHash
    EpochsAscend (placeTwice epochOne epochTwo) := by
  let _ := foldHash
  intro before version placement rest catalog previous hcommands hbefore hprevious
  cases before with
  | nil =>
    obtain rfl : new = catalog := Except.ok.inj hbefore
    cases hprevious
  | cons command before =>
    obtain ⟨hfirst, hrest⟩ := List.cons.inj hcommands
    cases before with
    | nil =>
      obtain ⟨hsecond, -⟩ := List.cons.inj hrest
      obtain ⟨-, rfl⟩ := CatalogCommand.putPlacement.inj hsecond
      subst hfirst
      obtain rfl : atOne = catalog :=
        Except.ok.inj ((eq_ok_value (placedOnce epochOne) _).symm.trans hbefore)
      have hepoch := epoch_atOne
      rw [epochOf, show atOne.placements[(placementAt epochOne).key]? = some previous from hprevious]
        at hepoch
      rw [Option.some.inj hepoch]
      decide +kernel
    | cons => simp at hrest

theorem replicas_follow_ascending :
    letI := foldHash
    ∃ last, CatalogState.new.replay (placeTwice epochOne epochTwo) = .ok last ∧
      Follows (placeTwice epochOne epochTwo) := by
  let _ := foldHash
  have hlast := Result.eq_ok_value (CatalogState.new.replay (placeTwice epochOne epochTwo))
    (by decide +kernel)
  exact ⟨_, hlast, (replicas_follow_iff hlast).2.mpr epochsAscend_placeTwice⟩

/-- The second placement is accepted, but a replica of the first refuses it. -/
theorem lowered_epoch_refused :
    letI := foldHash
    CatalogState.new.replay [.putPlacement 0 (placementAt epochTwo)] = .ok atTwo ∧
      atTwo.replay [.putPlacement 1 (placementAt epochOne)] = .ok loweredAtTwo ∧
      (CatalogReplica.mk atTwo).install loweredAtTwo = .error (.catalogEpochRegression
        1 1 epochTwo epochOne) := by
  refine ⟨Result.eq_ok_value (placedOnce epochTwo) _, Result.eq_ok_value _ _, ?_⟩
  decide +kernel

end CatalogState

end DtgProxy.Control

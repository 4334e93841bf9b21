import DtgProxy.Lib.Result
import DtgProxy.Transaction.TimestampState

/-! # What one timestamp operation can do

`Issues` lists every effect an accepted operation can have on the authority's
state.  The invariant ties the counter, the frontier and the reservations
together; it is preserved by each effect, and under it the staging code
produces exactly these effects.
-/
namespace DtgProxy.Transaction

open Kernel Lib OrderedMap

def TimestampCommand.operation : TimestampCommand → TimestampOperation
  | .allocateStart id _ => .allocateStart id
  | .reserveCommit id _ => .reserveCommit id
  | .resolveCommit id t resolution => .resolveCommit id t resolution

namespace TimestampState

/-- The state holds the answer `t` of the operation. -/
def Records (s : TimestampState) : TimestampOperation → TransactionTime → Prop
  | .allocateStart id, t => s.startTimes[id]? = some t
  | .reserveCommit id, t => (s.reservations[id]?).map (·.commitTime) = some t
  | .resolveCommit id commitTime resolution, t =>
    t = commitTime ∧ s.reservations[id]? = some ⟨commitTime, some resolution⟩

/-- The effects of an accepted operation. -/
inductive Issues (s : TimestampState) :
    TimestampOperation → TransactionTime → TimestampState → Prop where
  | recorded {op : TimestampOperation} {t : TransactionTime} (h : s.Records op t) :
      Issues s op t s
  | startAtFrontier {id : TransactionId} {t : TransactionTime}
      (hnew : s.startTimes[id]? = none) (ht : t.get = s.publishedFrontier) :
      Issues s (.allocateStart id) t { s with startTimes := s.startTimes.insert id t }
  | startAfterLast {id : TransactionId} {t : TransactionTime}
      (hnew : s.startTimes[id]? = none) (ht : t.get = s.lastIssued + 1)
      (hfrontier : s.publishedFrontier = s.lastIssued) :
      Issues s (.allocateStart id) t
        { s with
          lastIssued := t.get
          publishedFrontier := t.get
          startTimes := s.startTimes.insert id t }
  | reserved {id : TransactionId} {t : TransactionTime}
      (hnew : s.reservations[id]? = none) (ht : t.get = s.lastIssued + 1) :
      Issues s (.reserveCommit id) t
        { s with
          lastIssued := t.get
          reservations := s.reservations.insert id ⟨t, none⟩ }
  | resolved {id : TransactionId} {t : TransactionTime} {resolution : CommitResolution}
      (hpending : s.reservations[id]? = some ⟨t, none⟩) :
      Issues s (.resolveCommit id t resolution) t
        (advancePublishedFrontier
          { s with reservations := s.reservations.insert id ⟨t, some resolution⟩ })

/-- The counter, the frontier and the reservations agree. -/
structure Inv (s : TimestampState) : Prop where
  frontier_le : s.publishedFrontier ≤ s.lastIssued
  last_lt : s.lastIssued < 2 ^ 63
  start_le : ∀ {id : TransactionId} {t : TransactionTime}, s.startTimes[id]? = some t →
    t.get ≤ s.publishedFrontier
  commit_le : ∀ {id : TransactionId} {r : CommitTimeReservation}, s.reservations[id]? = some r →
    r.commitTime.get ≤ s.lastIssued
  commit_inj : ∀ {id id' : TransactionId} {r r' : CommitTimeReservation},
    s.reservations[id]? = some r → s.reservations[id']? = some r' →
    r.commitTime = r'.commitTime → id = id'
  below_resolved : ∀ {id : TransactionId} {r : CommitTimeReservation},
    s.reservations[id]? = some r → r.commitTime.get ≤ s.publishedFrontier → r.resolution.isSome
  above_reserved : ∀ {t : ℕ}, s.publishedFrontier < t → t ≤ s.lastIssued →
    ∃ (id : TransactionId) (r : CommitTimeReservation), s.reservations[id]? = some r ∧ r.commitTime.get = t
  stops_pending : ∀ {id : TransactionId} {r : CommitTimeReservation},
    s.reservations[id]? = some r → r.commitTime.get = s.publishedFrontier + 1 → r.resolution = none

theorem inv_empty : empty.Inv where
  frontier_le := le_rfl
  last_lt := by norm_num [empty]
  start_le h := by simp [empty] at h
  commit_le h := by simp [empty] at h
  commit_inj h := by simp [empty] at h
  below_resolved h := by simp [empty] at h
  above_reserved h h' := by simp only [empty] at h h'; omega
  stops_pending h := by simp [empty] at h

theorem resolvedAt_iff (s : TimestampState) (t : ℕ) :
    s.resolvedAt t = true ↔
      ∃ (id : TransactionId) (r : CommitTimeReservation),
        s.reservations[id]? = some r ∧ r.commitTime.get = t ∧ r.resolution.isSome := by
  simp only [resolvedAt, anyValue_iff, Bool.and_eq_true, beq_iff_eq]

section FrontierLoop

variable (resolved : ℕ → Bool)

variable (fuel frontier : ℕ)

theorem le_advanceLoop : frontier ≤ advanceLoop resolved fuel frontier := by
  induction fuel generalizing frontier with
  | zero => exact le_rfl
  | succ fuel ih =>
    rw [advanceLoop]
    split_ifs
    · exact le_trans (Nat.le_succ frontier) (ih (frontier + 1))
    · exact le_rfl

theorem advanceLoop_le :
    advanceLoop resolved fuel frontier ≤ frontier + fuel := by
  induction fuel generalizing frontier with
  | zero => exact le_rfl
  | succ fuel ih =>
    rw [advanceLoop]
    split_ifs
    · have := ih (frontier + 1)
      omega
    · omega

/-- Every time the loop passes is resolved. -/
theorem advanceLoop_passes (fuel frontier t : ℕ) (hlow : frontier < t)
    (hhigh : t ≤ advanceLoop resolved fuel frontier) : resolved t = true := by
  induction fuel generalizing frontier with
  | zero => simp only [advanceLoop] at hhigh; omega
  | succ fuel ih =>
    rw [advanceLoop] at hhigh
    split_ifs at hhigh with hres
    · rcases Nat.eq_or_lt_of_le hlow with heq | hlt
      · exact heq ▸ hres
      · exact ih (frontier + 1) hlt hhigh
    · omega

/-- The loop stops early only at an unresolved time. -/
theorem advanceLoop_stops
    (h : advanceLoop resolved fuel frontier < frontier + fuel) :
    resolved (advanceLoop resolved fuel frontier + 1) = false := by
  induction fuel generalizing frontier with
  | zero => simp [advanceLoop] at h
  | succ fuel ih =>
    rw [advanceLoop] at h ⊢
    split_ifs at h ⊢ with hres
    · exact ih (frontier + 1) (by omega)
    · simpa using hres

end FrontierLoop

variable {r : CommitTimeReservation} {a : TransactionId}

section Effects

variable {s s' s'' : TimestampState} {op : TimestampOperation} {t : TransactionTime}
variable {id : TransactionId} {u : TransactionTime}
variable {resolution : CommitResolution}

/-- Resolving a reservation leaves its time, and every other reservation, as they were. -/
private theorem resolved_lookup {t : TransactionTime}
    (hpending : s.reservations[id]? = some ⟨t, none⟩)
    (hr : (s.reservations.insert id ⟨t, some resolution⟩)[a]? = some r) :
    ∃ r₀, s.reservations[a]? = some r₀ ∧ r₀.commitTime = r.commitTime ∧
      (r₀.resolution.isSome → r.resolution.isSome) := by
  rw [lookup_insert] at hr
  split_ifs at hr with h
  · subst h
    cases hr
    exact ⟨_, hpending, rfl, fun _ => rfl⟩
  · exact ⟨r, hr, rfl, fun h => h⟩

private theorem inv_startAtFrontier (hi : s.Inv) (ht : t.get = s.publishedFrontier) :
    Inv { s with startTimes := s.startTimes.insert id t } where
  frontier_le := hi.frontier_le
  last_lt := hi.last_lt
  start_le {a u} h := by
    rw [lookup_insert] at h
    split_ifs at h with heq
    · cases h
      exact ht.le
    · exact hi.start_le h
  commit_le := hi.commit_le
  commit_inj := hi.commit_inj
  below_resolved := hi.below_resolved
  above_reserved := hi.above_reserved
  stops_pending := hi.stops_pending

private theorem inv_startAfterLast (hi : s.Inv) (ht : t.get = s.lastIssued + 1)
    (hfrontier : s.publishedFrontier = s.lastIssued) :
    Inv { s with
          lastIssued := t.get
          publishedFrontier := t.get
          startTimes := s.startTimes.insert id t } where
  frontier_le := le_rfl
  last_lt := t.inRange
  start_le {a u} h := by
    rw [lookup_insert] at h
    split_ifs at h with heq
    · cases h
      exact le_rfl
    · have := hi.start_le h
      change u.get ≤ t.get
      omega
  commit_le {a r} h := by
    have := hi.commit_le h
    change r.commitTime.get ≤ t.get
    omega
  commit_inj := hi.commit_inj
  below_resolved {a r} h _ := hi.below_resolved h (hfrontier ▸ hi.commit_le h)
  above_reserved {u} hlow hhigh := by
    change t.get < u at hlow
    change u ≤ t.get at hhigh
    omega
  stops_pending {a r} h hnext := by
    have := hi.commit_le h
    change r.commitTime.get = t.get + 1 at hnext
    omega

private theorem inv_reserved (hi : s.Inv) (hnew : s.reservations[id]? = none)
    (ht : t.get = s.lastIssued + 1) :
    Inv { s with
          lastIssued := t.get
          reservations := s.reservations.insert id ⟨t, none⟩ } := by
  -- a reservation of the new state is the pending one at `t`, or an old one below `t`
  have hcases : ∀ {a : TransactionId} {r : CommitTimeReservation},
      (s.reservations.insert id ⟨t, none⟩)[a]? = some r →
      (a = id ∧ r = ⟨t, none⟩) ∨ (s.reservations[a]? = some r ∧ r.commitTime.get < t.get) := by
    intro a r h
    rw [lookup_insert] at h
    split_ifs at h with heq
    · cases h
      exact Or.inl ⟨heq.symm, rfl⟩
    · have := hi.commit_le h
      exact Or.inr ⟨h, by omega⟩
  have hf := hi.frontier_le
  refine ⟨?_, t.inRange, hi.start_le, ?_, ?_, ?_, ?_, ?_⟩
  · change s.publishedFrontier ≤ t.get
    omega
  · intro a r h
    rcases hcases h with ⟨_, rfl⟩ | ⟨_, hlt⟩
    · exact le_rfl
    · exact hlt.le
  · intro a a' r r' h h' heq
    rcases hcases h with ⟨rfl, rfl⟩ | ⟨hold, hlt⟩ <;>
      rcases hcases h' with ⟨rfl, rfl⟩ | ⟨hold', hlt'⟩
    · rfl
    · rw [← heq] at hlt'
      exact absurd hlt' (lt_irrefl _)
    · rw [heq] at hlt
      exact absurd hlt (lt_irrefl _)
    · exact hi.commit_inj hold hold' heq
  · intro a r h hle
    rcases hcases h with ⟨_, rfl⟩ | ⟨hold, _⟩
    · change t.get ≤ s.publishedFrontier at hle
      omega
    · exact hi.below_resolved hold hle
  · intro u hlow hhigh
    change u ≤ t.get at hhigh
    rcases Nat.eq_or_lt_of_le hhigh with rfl | hlt
    · exact ⟨id, ⟨t, none⟩, lookup_insert_self _ _ _, rfl⟩
    · obtain ⟨a, r, hr, hu⟩ := hi.above_reserved hlow (by omega)
      have hne : id ≠ a := by
        rintro rfl
        simp [hnew] at hr
      exact ⟨a, r, by rw [lookup_insert_of_ne _ _ hne]; exact hr, hu⟩
  · intro a r h hnext
    rcases hcases h with ⟨_, rfl⟩ | ⟨hold, _⟩
    · rfl
    · exact hi.stops_pending hold hnext

private theorem inv_resolved (hi : s.Inv) (hpending : s.reservations[id]? = some ⟨t, none⟩) :
    Inv (advancePublishedFrontier
      { s with reservations := s.reservations.insert id ⟨t, some resolution⟩ }) := by
  set s₁ : TimestampState :=
    { s with reservations := s.reservations.insert id ⟨t, some resolution⟩ } with hs₁
  have hlookup : ∀ {a : TransactionId} {r : CommitTimeReservation}, s₁.reservations[a]? = some r →
      ∃ r₀, s.reservations[a]? = some r₀ ∧ r₀.commitTime = r.commitTime ∧
        (r₀.resolution.isSome → r.resolution.isSome) :=
    fun h => resolved_lookup hpending h
  have hinj : ∀ {a a' : TransactionId} {r r' : CommitTimeReservation},
      s₁.reservations[a]? = some r → s₁.reservations[a']? = some r' →
      r.commitTime = r'.commitTime → a = a' := by
    intro a a' r r' h h' heq
    obtain ⟨r₀, hr₀, ht₀, -⟩ := hlookup h
    obtain ⟨r₀', hr₀', ht₀', -⟩ := hlookup h'
    exact hi.commit_inj hr₀ hr₀' (by rw [ht₀, ht₀', heq])
  have hf := hi.frontier_le
  have hge : s.publishedFrontier ≤ s₁.advancePublishedFrontier.publishedFrontier :=
    le_advanceLoop _ _ _
  have hle : s₁.advancePublishedFrontier.publishedFrontier ≤ s.lastIssued := by
    have := advanceLoop_le s₁.resolvedAt (s.lastIssued - s.publishedFrontier) s.publishedFrontier
    change advanceLoop _ (s.lastIssued - s.publishedFrontier) s.publishedFrontier ≤ _
    omega
  refine ⟨hle, hi.last_lt, fun h => le_trans (hi.start_le h) hge, ?_, hinj, ?_, ?_, ?_⟩
  · intro a r h
    obtain ⟨r₀, hr₀, ht₀, -⟩ := hlookup h
    exact ht₀ ▸ hi.commit_le hr₀
  · intro a r h hbelow
    obtain ⟨r₀, hr₀, ht₀, hres⟩ := hlookup h
    rcases Nat.lt_or_ge s.publishedFrontier r.commitTime.get with hlow | hlow
    · -- the loop passed this time, so the one reservation there is resolved
      obtain ⟨a', r', hr', ht', hsome⟩ := (s₁.resolvedAt_iff _).mp
        (advanceLoop_passes s₁.resolvedAt _ _ _ hlow hbelow)
      have haa : a = a' := hinj h hr' (TransactionTime.ext ht'.symm)
      subst haa
      cases hr'.symm.trans h
      exact hsome
    · exact hres (hi.below_resolved hr₀ (ht₀ ▸ hlow))
  · intro u hlow hhigh
    obtain ⟨a, r, hr, hu⟩ := hi.above_reserved (lt_of_le_of_lt hge hlow) hhigh
    by_cases ha : id = a
    · subst ha
      rw [hpending] at hr
      cases hr
      exact ⟨id, _, lookup_insert_self _ _ _, hu⟩
    · exact ⟨a, r, by rw [← hr]; exact lookup_insert_of_ne _ _ ha, hu⟩
  · intro a r h hnext
    have hcommit : r.commitTime.get ≤ s.lastIssued := by
      obtain ⟨r₀, hr₀, ht₀, -⟩ := hlookup h
      exact ht₀ ▸ hi.commit_le hr₀
    have hstop := advanceLoop_stops s₁.resolvedAt (s.lastIssued - s.publishedFrontier)
      s.publishedFrontier (by
        change _ = advanceLoop _ (s.lastIssued - s.publishedFrontier) s.publishedFrontier + 1
          at hnext
        omega)
    change _ = advanceLoop _ (s.lastIssued - s.publishedFrontier) s.publishedFrontier + 1 at hnext
    by_contra hsome
    have : s₁.resolvedAt r.commitTime.get = true :=
      (s₁.resolvedAt_iff _).mpr ⟨a, r, h, rfl, Option.isSome_iff_ne_none.mpr hsome⟩
    rw [hnext, hstop] at this
    cases this

theorem Issues.inv (h : s.Issues op t s') (hi : s.Inv) : s'.Inv := by
  cases h with
  | recorded => exact hi
  | startAtFrontier _ ht => exact inv_startAtFrontier hi ht
  | startAfterLast _ ht hfrontier => exact inv_startAfterLast hi ht hfrontier
  | reserved hnew ht => exact inv_reserved hi hnew ht
  | resolved hpending => exact inv_resolved hi hpending

theorem Issues.records (h : s.Issues op t s') : s'.Records op t := by
  cases h with
  | recorded h => exact h
  | startAtFrontier _ _ | startAfterLast _ _ _ => exact lookup_insert_self _ _ _
  | @reserved id t _ _ =>
    change ((s.reservations.insert id ⟨t, none⟩)[id]?).map _ = _
    rw [lookup_insert_self]
    rfl
  | resolved _ => exact ⟨rfl, lookup_insert_self _ _ _⟩

/-- `s'` is a later state than `s`: nothing recorded is lost, and a reservation
that is new in `s'` lies above everything `s` had issued. -/
structure Extends (s s' : TimestampState) : Prop where
  last_le : s.lastIssued ≤ s'.lastIssued
  frontier_le : s.publishedFrontier ≤ s'.publishedFrontier
  records : ∀ {op : TimestampOperation} {t : TransactionTime}, s.Records op t → s'.Records op t
  fresh : ∀ {id : TransactionId} {r : CommitTimeReservation}, s'.reservations[id]? = some r →
    s.reservations[id]? = none → s.lastIssued < r.commitTime.get

theorem Extends.refl (s : TimestampState) : s.Extends s where
  last_le := le_rfl
  frontier_le := le_rfl
  records h := h
  fresh h hnone := by simp [hnone] at h

theorem Extends.trans (h : s.Extends s') (h' : s'.Extends s'') : s.Extends s'' where
  last_le := le_trans h.last_le h'.last_le
  frontier_le := le_trans h.frontier_le h'.frontier_le
  records hr := h'.records (h.records hr)
  fresh {id r} hr hnone := by
    cases hmid : s'.reservations[id]? with
    | none => exact lt_of_le_of_lt h.last_le (h'.fresh hr hmid)
    | some mid =>
      have hrec : s''.Records (.reserveCommit id) mid.commitTime :=
        h'.records (by simp [Records, hmid])
      have hsame : r.commitTime = mid.commitTime := by
        simpa [Records, hr] using hrec
      rw [hsame]
      exact h.fresh hmid hnone

private theorem records_insert_start (hnew : s.startTimes[id]? = none)
    (hs : s'.startTimes = s.startTimes.insert id u) (hr : s'.reservations = s.reservations)
    (h : s.Records op t) : s'.Records op t := by
  cases op with
  | allocateStart a =>
    change s'.startTimes[a]? = some t
    have hne : id ≠ a := by
      rintro rfl
      simp [Records, hnew] at h
    rw [hs, lookup_insert_of_ne _ _ hne]
    exact h
  | reserveCommit | resolveCommit => simpa only [Records, hr] using h

private theorem records_reserved (hnew : s.reservations[id]? = none)
    (hs : s'.startTimes = s.startTimes) (hr : s'.reservations = s.reservations.insert id ⟨u, none⟩)
    (h : s.Records op t) :
    s'.Records op t := by
  have hkeep : ∀ {a : TransactionId} {r : CommitTimeReservation}, s.reservations[a]? = some r →
      s'.reservations[a]? = some r := by
    intro a r ha
    have hne : id ≠ a := by
      rintro rfl
      simp [hnew] at ha
    rw [hr, lookup_insert_of_ne _ _ hne, ha]
  cases op with
  | allocateStart => simpa only [Records, hs] using h
  | reserveCommit =>
    obtain ⟨r, ha, hrt⟩ := Option.map_eq_some_iff.mp h
    exact Option.map_eq_some_iff.mpr ⟨r, hkeep ha, hrt⟩
  | resolveCommit => exact ⟨h.1, hkeep h.2⟩

private theorem records_resolved (hpending : s.reservations[id]? = some ⟨u, none⟩)
    (hs : s'.startTimes = s.startTimes)
    (hr : s'.reservations = s.reservations.insert id ⟨u, some resolution⟩)
    (h : s.Records op t) : s'.Records op t := by
  cases op with
  | allocateStart => simpa only [Records, hs] using h
  | reserveCommit =>
    simp only [Records, hr, lookup_insert] at h ⊢
    split_ifs with heq
    · subst heq
      simpa [hpending] using h
    · exact h
  | resolveCommit a =>
    refine ⟨h.1, ?_⟩
    have hne : id ≠ a := by
      rintro rfl
      simp [Records, hpending] at h
    rw [hr, lookup_insert_of_ne _ _ hne]
    exact h.2

theorem Issues.extends (h : s.Issues op t s') : s.Extends s' := by
  cases h with
  | recorded => exact .refl s
  | startAtFrontier hnew =>
    exact ⟨le_rfl, le_rfl, records_insert_start hnew rfl rfl, fun hr hnone => by simp_all⟩
  | startAfterLast hnew ht hfrontier =>
    refine ⟨?_, ?_, records_insert_start hnew rfl rfl, fun hr hnone => by simp_all⟩
    · exact ht ▸ Nat.le_succ _
    · exact ht ▸ hfrontier ▸ Nat.le_succ _
  | @reserved id t hnew ht =>
    refine ⟨ht ▸ Nat.le_succ _, le_rfl, records_reserved hnew rfl rfl, fun {a r} hr hnone => ?_⟩
    rw [lookup_insert] at hr
    split_ifs at hr
    · cases hr
      change s.lastIssued < t.get
      omega
    · simp [hnone] at hr
  | @resolved id t resolution hpending =>
    refine ⟨le_rfl, le_advanceLoop _ _ _, records_resolved hpending rfl rfl,
      fun {a r} hr hnone => ?_⟩
    obtain ⟨r₀, hr₀, -⟩ := resolved_lookup hpending hr
    simp [hnone] at hr₀

theorem Records.unique (h : s.Records op t) (h' : s.Records op u) :
    t = u := by
  cases op with
  | allocateStart | reserveCommit => exact Option.some.inj (h.symm.trans h')
  | resolveCommit id c resolution => exact h.1.trans h'.1.symm

/-- An effect adds no answer but that of its own operation. -/
theorem Issues.records_new {op' : TimestampOperation} (h : s.Issues op t s')
    (h' : s'.Records op' u) : op' = op ∨ s.Records op' u := by
  cases h with
  | recorded => exact Or.inr h'
  | @startAtFrontier id t _ _ | @startAfterLast id t _ _ _ =>
    cases op' with
    | allocateStart =>
      simp only [Records, lookup_insert] at h'
      split_ifs at h' with heq
      · exact Or.inl (by rw [heq])
      · exact Or.inr h'
    | reserveCommit | resolveCommit => exact Or.inr h'
  | @reserved id t _ _ =>
    cases op' with
    | allocateStart => exact Or.inr h'
    | reserveCommit =>
      simp only [Records, lookup_insert] at h'
      split_ifs at h' with heq
      · exact Or.inl (by rw [heq])
      · exact Or.inr h'
    | resolveCommit =>
      simp only [Records, lookup_insert] at h'
      split_ifs at h' with heq
      · simp at h'
      · exact Or.inr h'
  | @resolved id t resolution hpending =>
    cases op' with
    | allocateStart => exact Or.inr h'
    | reserveCommit =>
      simp only [Records, advancePublishedFrontier, lookup_insert] at h'
      split_ifs at h' with heq
      · refine Or.inr ?_
        simpa [Records, ← heq, hpending] using h'
      · exact Or.inr h'
    | resolveCommit =>
      simp only [Records, advancePublishedFrontier, lookup_insert] at h'
      split_ifs at h' with heq
      · obtain ⟨-, hsome⟩ := h'
        cases hsome
        exact Or.inl (by rw [heq])
      · exact Or.inr h'

/-- A start time lies at or below the published frontier, so every reservation
it covers is resolved. -/
theorem Inv.resolved_of_start (hi : s.Inv) {S : TransactionTime}
    (hstart : s.startTimes[id]? = some S) (hr : s.reservations[a]? = some r)
    (hle : r.commitTime ≤ S) : r.resolution.isSome :=
  hi.below_resolved hr (le_trans hle (hi.start_le hstart))

end Effects

variable {command : TimestampCommand}

section Staging

variable {s : TimestampState} {op : TimestampOperation} {st : Staged}
variable {t : TransactionTime} {s' : TimestampState}
variable {id : TransactionId}

theorem checkedSucc_eq_some {n : ℕ} (h : checkedSucc n = some t) :
    t.get = n + 1 := by
  simp only [checkedSucc, TransactionTime.new] at h
  split_ifs at h
  cases h
  rfl

theorem applyNewTimestamp_ok (h : s.applyNewTimestamp t = .ok s') :
    t.get = s.lastIssued + 1 ∧ s' = { s with lastIssued := t.get } := by
  unfold applyNewTimestamp at h
  split at h
  · cases h
  · rename_i next hnext
    split_ifs at h with hne
    cases h
    exact ⟨by rw [not_not.mp hne]; exact checkedSucc_eq_some hnext, rfl⟩

private theorem applyAllocateStart_issues (h : s.applyAllocateStart id t = .ok s') :
    s.Issues (.allocateStart id) t s' := by
  unfold applyAllocateStart at h
  split at h
  · rename_i existing hfound
    split_ifs at h with heq
    cases h
    exact .recorded (heq ▸ hfound)
  · rename_i hnew
    split at h
    · cases h
    · split_ifs at h with hnext hfrontier hbehind
      · obtain ⟨issued, hissued, hs'⟩ := Result.bind_eq_ok.mp h
        obtain ⟨ht, rfl⟩ := applyNewTimestamp_ok hissued
        cases hs'
        exact .startAfterLast hnew ht (not_not.mp hfrontier)
      · cases h
        exact .startAtFrontier hnew (not_not.mp hbehind)

private theorem applyReserveCommit_issues (h : s.applyReserveCommit id t = .ok s') :
    s.Issues (.reserveCommit id) t s' := by
  unfold applyReserveCommit at h
  split at h
  · rename_i existing hfound
    split_ifs at h with heq
    cases h
    exact .recorded (by simp [Records, hfound, heq])
  · rename_i hnew
    obtain ⟨issued, hissued, hs'⟩ := Result.bind_eq_ok.mp h
    obtain ⟨ht, rfl⟩ := applyNewTimestamp_ok hissued
    cases hs'
    exact .reserved hnew ht

private theorem applyResolveCommit_issues {resolution : CommitResolution}
    (h : s.applyResolveCommit id t resolution = .ok s') :
    s.Issues (.resolveCommit id t resolution) t s' := by
  unfold applyResolveCommit at h
  split at h
  · cases h
  · rename_i reservation hfound
    split_ifs at h with htime
    obtain ⟨c, res⟩ := reservation
    obtain rfl : c = t := not_not.mp htime
    cases res with
    | some =>
      simp only at h
      split_ifs at h with heq
      cases h
      exact .recorded ⟨rfl, heq ▸ hfound⟩
    | none =>
      cases h
      exact .resolved hfound

/-- Replaying a log record has the effect of the operation it was written for. -/
theorem apply_issues (h : s.apply command = .ok s') :
    s.Issues command.operation command.timestamp s' := by
  cases command with
  | allocateStart => exact applyAllocateStart_issues h
  | reserveCommit => exact applyReserveCommit_issues h
  | resolveCommit => exact applyResolveCommit_issues h

private theorem stageCommand_ok (h : stageCommand s command = .ok st) :
    s.apply command = .ok st.state ∧ st.timestamp = command.timestamp ∧
      st.command = some command := by
  obtain ⟨state, hstate, hst⟩ := Result.bind_eq_ok.mp h
  cases hst
  exact ⟨hstate, rfl, rfl⟩

/-- A staged operation either repeats an answer the state records, without a
log record, or creates the log record that replays to the state it leaves. -/
theorem stageOperation_cases (h : stageOperation s op = .ok st) :
    (st.command = none ∧ st.state = s ∧ s.Records op st.timestamp) ∨
      (∃ command, st.command = some command ∧ command.operation = op ∧
        command.timestamp = st.timestamp ∧ s.apply command = .ok st.state) := by
  cases op with
  | allocateStart id =>
    simp only [stageOperation] at h
    split at h
    · rename_i timestamp hfound
      cases h
      exact Or.inl ⟨rfl, rfl, hfound⟩
    · obtain ⟨t, -, hstage⟩ := Result.bind_eq_ok.mp h
      obtain ⟨happly, ht, hcommand⟩ := stageCommand_ok hstage
      exact Or.inr ⟨_, hcommand, rfl, ht.symm, happly⟩
  | reserveCommit id =>
    simp only [stageOperation] at h
    split at h
    · rename_i reservation hfound
      cases h
      exact Or.inl ⟨rfl, rfl, by simp [Records, hfound]⟩
    · obtain ⟨t, -, hstage⟩ := Result.bind_eq_ok.mp h
      obtain ⟨happly, ht, hcommand⟩ := stageCommand_ok hstage
      exact Or.inr ⟨_, hcommand, rfl, ht.symm, happly⟩
  | resolveCommit id commitTime resolution =>
    simp only [stageOperation] at h
    split at h
    · cases h
    · rename_i reservation hfound
      split_ifs at h with htime
      obtain ⟨c, res⟩ := reservation
      obtain rfl : c = commitTime := not_not.mp htime
      cases res with
      | some =>
        simp only at h
        split_ifs at h with heq
        subst heq
        cases h
        exact Or.inl ⟨rfl, rfl, rfl, hfound⟩
      | none =>
        obtain ⟨happly, ht, hcommand⟩ := stageCommand_ok h
        exact Or.inr ⟨_, hcommand, rfl, ht.symm, happly⟩

theorem stageOperation_issues (h : stageOperation s op = .ok st) :
    s.Issues op st.timestamp st.state := by
  rcases stageOperation_cases h with ⟨-, hstate, hrec⟩ | ⟨command, -, rfl, ht, happly⟩
  · rw [hstate]
    exact .recorded hrec
  · rw [← ht]
    exact apply_issues happly

end Staging

end TimestampState

end DtgProxy.Transaction

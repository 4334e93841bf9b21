import Mathlib.Data.Fintype.EquivFin
import Mathlib.Data.Set.Finite.Basic
import Mathlib.Logic.Relation
import Mathlib.Order.WellFounded
import Mathlib.Order.WellFoundedSet

/-! # Loops without a bound

A loop body inspects the state and either returns or goes on with another state.
`loop` runs the body for at most a given number of rounds; `none` says that the
loop has not returned yet.  A loop whose positions range over a finite set
returns exactly when the positions it visits never close a cycle.

A program made of such loops is a family of computations indexed by the number
of rounds.  It returns when some number of rounds suffices.
-/
namespace DtgProxy.Lib

universe u v w

/-- What one round of a loop does. -/
inductive Round (σ : Type u) (ρ : Type v) where
  | done (result : ρ)
  | next (state : σ)

section Rounds

variable {σ : Type u} {ρ : Type v} {body : σ → Round σ ρ}

/-- The result of a loop after at most `fuel` rounds. -/
def loop (body : σ → Round σ ρ) : ℕ → σ → Option ρ
  | 0, _ => none
  | fuel + 1, state =>
    match body state with
    | .done result => some result
    | .next state => loop body fuel state

variable {state : σ} {result : ρ}

theorem loop_succ_of_done (h : body state = .done result) (fuel : ℕ) :
    loop body (fuel + 1) state = some result := by
  simp only [loop, h]

theorem loop_succ_of_next {state' : σ} (h : body state = .next state') (fuel : ℕ) :
    loop body (fuel + 1) state = loop body fuel state' := by
  simp only [loop, h]

/-- More rounds do not change a result. -/
theorem loop_mono {fuel fuel' : ℕ} (hle : fuel ≤ fuel') (h : loop body fuel state = some result) :
    loop body fuel' state = some result := by
  induction fuel generalizing fuel' state with
  | zero => cases h
  | succ fuel ih =>
    obtain ⟨fuel', rfl⟩ : ∃ n, fuel' = n + 1 := ⟨fuel' - 1, by omega⟩
    cases hbody : body state with
    | done =>
      rw [loop_succ_of_done hbody] at h ⊢
      exact h
    | next =>
      rw [loop_succ_of_next hbody] at h ⊢
      exact ih (by omega) h

/-- A loop returns what its body returns in a state that the loop comes to. -/
theorem exists_loop_eq_some_iff :
    (∃ fuel, loop body fuel state = some result) ↔
      ∃ last, Relation.ReflTransGen (fun a b => body a = .next b) state last ∧
        body last = .done result := by
  constructor
  · rintro ⟨fuel, hloop⟩
    induction fuel generalizing state with
    | zero => cases hloop
    | succ fuel ih =>
      cases hbody : body state with
      | done =>
        rw [loop_succ_of_done hbody] at hloop
        cases hloop
        exact ⟨state, .refl, hbody⟩
      | next =>
        rw [loop_succ_of_next hbody] at hloop
        obtain ⟨last, hreach, hdone⟩ := ih hloop
        exact ⟨last, .head hbody hreach, hdone⟩
  · rintro ⟨last, hreach, hdone⟩
    induction hreach using Relation.ReflTransGen.head_induction_on with
    | refl => exact ⟨1, loop_succ_of_done hdone 0⟩
    | head hstep _ ih =>
      obtain ⟨fuel, hloop⟩ := ih
      exact ⟨fuel + 1, by rw [loop_succ_of_next hstep, hloop]⟩

end Rounds

section Positions

variable {σ : Type u} {ρ : Type v} {κ : Type w}

/-- Whether a loop goes on, and where to, depends only on its position. -/
structure Tracks (body : σ → Round σ ρ) (position : σ → κ) (follows : κ → κ → Prop) : Prop where
  follows_of_next : ∀ {state state'}, body state = .next state' →
    follows (position state) (position state')
  next_of_follows : ∀ {state place}, follows (position state) place →
    ∃ state', body state = .next state' ∧ position state' = place

/-- The positions after `start` run into a cycle. -/
def RunsIntoCycle (follows : κ → κ → Prop) (start : κ) : Prop :=
  ∃ place, Relation.ReflTransGen follows start place ∧ Relation.TransGen follows place place

theorem RunsIntoCycle.exists_follows {follows : κ → κ → Prop} {start : κ}
    (h : RunsIntoCycle follows start) :
    ∃ place, follows start place ∧ RunsIntoCycle follows place := by
  obtain ⟨place, hreach, hcycle⟩ := h
  cases hreach.cases_head with
  | inl heq =>
    subst heq
    obtain ⟨second, hstep, hback⟩ := Relation.TransGen.head'_iff.mp hcycle
    exact ⟨second, hstep, start, hback, hcycle⟩
  | inr hhead =>
    obtain ⟨second, hstep, hrest⟩ := hhead
    exact ⟨second, hstep, place, hrest, hcycle⟩

variable {body : σ → Round σ ρ} {position : σ → κ} {follows : κ → κ → Prop}

theorem Tracks.loop_eq_none (htracks : Tracks body position follows) {state : σ}
    (hcycle : RunsIntoCycle follows (position state)) (fuel : ℕ) :
    loop body fuel state = none := by
  induction fuel generalizing state with
  | zero => rfl
  | succ fuel ih =>
    obtain ⟨place, hstep, hrest⟩ := hcycle.exists_follows
    obtain ⟨state', hbody, rfl⟩ := htracks.next_of_follows hstep
    rw [loop_succ_of_next hbody]
    exact ih hrest

theorem Tracks.exists_loop_eq_some_of_acc (htracks : Tracks body position follows) {place : κ}
    (hacc : Acc (fun later earlier => follows earlier later) place) :
    ∀ state, position state = place → ∃ fuel result, loop body fuel state = some result := by
  induction hacc with
  | intro place _ ih =>
    rintro state rfl
    cases hbody : body state with
    | done result => exact ⟨1, result, loop_succ_of_done hbody 0⟩
    | next state' =>
      obtain ⟨fuel, result, hloop⟩ := ih _ (htracks.follows_of_next hbody) state' rfl
      exact ⟨fuel + 1, result, by rw [loop_succ_of_next hbody, hloop]⟩

/-- Among finitely many positions, a walk that runs into no cycle comes to an end. -/
theorem acc_of_not_runsIntoCycle {places : Set κ} (hfinite : places.Finite)
    (hclosed : ∀ place ∈ places, ∀ later, follows place later → later ∈ places)
    {start : κ} (hstart : start ∈ places) (hcycle : ¬ RunsIntoCycle follows start) :
    Acc (fun later earlier => follows earlier later) start := by
  -- The positions reachable from `start`, ordered by "later", form a finite strict order.
  let reached : Set κ := {place | Relation.ReflTransGen follows start place}
  have hsub : reached ⊆ places := by
    intro place hreach
    induction hreach with
    | refl => exact hstart
    | tail _ hstep ih => exact hclosed _ ih _ hstep
  have : Finite reached := (hfinite.subset hsub).to_subtype
  let after : reached → reached → Prop := fun later earlier =>
    Relation.TransGen follows earlier.1 later.1
  have hirrefl : Std.Irrefl after := ⟨fun a ha => hcycle ⟨a.1, a.2, ha⟩⟩
  have hwf : WellFounded after := Finite.wellFounded_of_trans_of_irrefl after
  have hacc : ∀ place : reached, Acc (fun later earlier => follows earlier later) place.1 := by
    intro place
    induction hwf.apply place with
    | intro place _ ih =>
      constructor
      intro later hstep
      exact ih ⟨later, place.2.tail hstep⟩ (Relation.TransGen.single hstep)
  exact hacc ⟨start, Relation.ReflTransGen.refl⟩

/-- A loop over finitely many positions returns exactly when it runs into no cycle. -/
theorem Tracks.returns_iff (htracks : Tracks body position follows) {places : Set κ}
    (hfinite : places.Finite)
    (hclosed : ∀ place ∈ places, ∀ later, follows place later → later ∈ places)
    {state : σ} (hstart : position state ∈ places) :
    (∃ fuel result, loop body fuel state = some result) ↔
      ¬ RunsIntoCycle follows (position state) := by
  constructor
  · rintro ⟨fuel, result, hloop⟩ hcycle
    rw [htracks.loop_eq_none hcycle] at hloop
    cases hloop
  · intro hcycle
    exact htracks.exists_loop_eq_some_of_acc
      (acc_of_not_runsIntoCycle hfinite hclosed hstart hcycle) state rfl

end Positions

/-! ## Programs made of loops -/

section Programs

variable {ε : Type u} {α β : Type u}

/-- A program whose loops are cut off after the given number of rounds. -/
abbrev Rounds (ε α : Type u) := ℕ → ExceptT ε Option α

namespace Rounds

variable {g : ℕ → α → ExceptT ε Option β}
variable {f : Rounds ε α}

/-- More rounds do not change the outcome. -/
def Steady (f : Rounds ε α) : Prop :=
  ∀ ⦃n m : ℕ⦄, n ≤ m → ∀ {outcome : Except ε α}, (f n).run = some outcome →
    (f m).run = some outcome

/-- The program returns, with a value or an error. -/
def Returns (f : Rounds ε α) : Prop := ∃ n outcome, (f n).run = some outcome

def ReturnsOk (f : Rounds ε α) (a : α) : Prop := ∃ n, (f n).run = some (.ok a)

theorem ReturnsOk.returns {a : α} (h : ReturnsOk f a) : Returns f := by
  obtain ⟨n, hn⟩ := h
  exact ⟨n, _, hn⟩

theorem steady_const (outcome : Except ε α) : Steady (fun _ => ExceptT.mk (some outcome)) :=
  fun _ _ _ _ h => h

theorem returns_const (outcome : Except ε α) : Returns (fun _ => ExceptT.mk (some outcome)) :=
  ⟨0, outcome, rfl⟩

theorem run_bind_eq_some {x : ExceptT ε Option α} {g : α → ExceptT ε Option β}
    {outcome : Except ε β} :
    (x >>= g).run = some outcome ↔
      (∃ e, x.run = some (.error e) ∧ outcome = .error e) ∨
        ∃ a, x.run = some (.ok a) ∧ (g a).run = some outcome := by
  rw [ExceptT.run_bind]
  cases hx : x.run with
  | none => simp
  | some r =>
    cases r with
    | error => simp [eq_comm]
    | ok => simp

theorem Steady.bind (hf : Steady f)
    (hg : ∀ a, Steady (fun n => g n a)) : Steady (fun n => f n >>= g n) := by
  intro n m hle outcome h
  rcases run_bind_eq_some.mp h with ⟨e, hx, rfl⟩ | ⟨a, hx, hrest⟩
  · exact run_bind_eq_some.mpr (.inl ⟨e, hf hle hx, rfl⟩)
  · exact run_bind_eq_some.mpr (.inr ⟨a, hf hle hx, hg a hle hrest⟩)

/-- A sequence returns when its first part returns and its second part returns
after every value of the first. -/
theorem returns_bind_iff (hf : Steady f) (hg : ∀ a, Steady (fun n => g n a)) :
    Returns (fun n => f n >>= g n) ↔
      Returns f ∧ ∀ a, ReturnsOk f a → Returns (fun n => g n a) := by
  constructor
  · rintro ⟨n, outcome, h⟩
    rcases run_bind_eq_some.mp h with ⟨e, hx, rfl⟩ | ⟨a, hx, hrest⟩
    · refine ⟨⟨n, _, hx⟩, ?_⟩
      rintro a ⟨m, hm⟩
      -- The two outcomes agree at the larger number of rounds.
      have heq := (hf (le_max_left n m) hx).symm.trans (hf (le_max_right n m) hm)
      cases heq
    · refine ⟨⟨n, _, hx⟩, ?_⟩
      rintro b ⟨m, hm⟩
      have heq := (hf (le_max_left n m) hx).symm.trans (hf (le_max_right n m) hm)
      cases heq
      exact ⟨n, outcome, hrest⟩
  · rintro ⟨⟨n, r, hx⟩, hsecond⟩
    cases r with
    | error e => exact ⟨n, .error e, run_bind_eq_some.mpr (.inl ⟨e, hx, rfl⟩)⟩
    | ok a =>
      obtain ⟨m, outcome, hm⟩ := hsecond a ⟨n, hx⟩
      exact ⟨max n m, outcome, run_bind_eq_some.mpr
        (.inr ⟨a, hf (le_max_left n m) hx, hg a (le_max_right n m) hm⟩)⟩

/-- A sequence returns a value when both parts do. -/
theorem returnsOk_bind_iff (hf : Steady f) (hg : ∀ a, Steady (fun n => g n a)) (b : β) :
    ReturnsOk (fun n => f n >>= g n) b ↔
      ∃ a, ReturnsOk f a ∧ ReturnsOk (fun n => g n a) b := by
  constructor
  · rintro ⟨n, h⟩
    rcases run_bind_eq_some.mp h with ⟨e, _, heq⟩ | ⟨a, hx, hrest⟩
    · cases heq
    · exact ⟨a, ⟨n, hx⟩, n, hrest⟩
  · rintro ⟨a, ⟨n, hn⟩, m, hm⟩
    exact ⟨max n m, run_bind_eq_some.mpr
      (.inr ⟨a, hf (le_max_left n m) hn, hg a (le_max_right n m) hm⟩)⟩

variable {f : ℕ → α → ExceptT ε Option β}

theorem Steady.mapM (hf : ∀ a, Steady (fun n => f n a)) (xs : List α) :
    Steady (fun n => xs.mapM (f n)) := by
  induction xs with
  | nil =>
    exact steady_const (.ok [])
  | cons x xs ih =>
    simp only [List.mapM_cons]
    exact (hf x).bind fun _ => ih.bind fun _ => steady_const (.ok _)

/-- A visit of all elements returns a value when every single visit does. -/
theorem exists_returnsOk_mapM_iff (hf : ∀ a, Steady (fun n => f n a)) (xs : List α) :
    (∃ bs, ReturnsOk (fun n => xs.mapM (f n)) bs) ↔
      ∀ x ∈ xs, ∃ b, ReturnsOk (fun n => f n x) b := by
  induction xs with
  | nil =>
    simp only [List.mapM_nil, List.not_mem_nil, false_implies, implies_true, iff_true]
    exact ⟨[], 0, rfl⟩
  | cons x xs ih =>
    have hrest : ∀ b : β, Steady (fun n => xs.mapM (f n) >>= fun bs => pure (b :: bs)) :=
      fun _ => (Steady.mapM hf xs).bind fun _ => steady_const (.ok _)
    simp only [List.mapM_cons, List.mem_cons, forall_eq_or_imp]
    constructor
    · rintro ⟨bs, hbs⟩
      obtain ⟨b, hb, htail⟩ := (returnsOk_bind_iff (hf x) hrest bs).mp hbs
      obtain ⟨cs, hcs, _⟩ := (returnsOk_bind_iff (Steady.mapM hf xs)
        (fun _ => steady_const (.ok _)) bs).mp htail
      exact ⟨⟨b, hb⟩, ih.mp ⟨cs, hcs⟩⟩
    · rintro ⟨⟨b, hb⟩, hxs⟩
      obtain ⟨cs, hcs⟩ := ih.mpr hxs
      refine ⟨b :: cs, (returnsOk_bind_iff (hf x) hrest _).mpr ⟨b, hb, ?_⟩⟩
      exact (returnsOk_bind_iff (Steady.mapM hf xs)
        (fun _ => steady_const (.ok _)) _).mpr ⟨cs, hcs, 0, rfl⟩

/-- A visit of all elements returns when each visit that is reached returns: the
visits before it have returned values. -/
theorem returns_mapM_iff (hf : ∀ a, Steady (fun n => f n a)) (xs : List α) :
    Returns (fun n => xs.mapM (f n)) ↔
      ∀ before x after, xs = before ++ x :: after →
        (∀ y ∈ before, ∃ b, ReturnsOk (fun n => f n y) b) → Returns (fun n => f n x) := by
  induction xs with
  | nil =>
    constructor
    · intro _ before x after heq
      simp at heq
    · intro _
      exact returns_const (.ok [])
  | cons x xs ih =>
    have hpure : ∀ b : β, ∀ bs : List β,
        Steady (fun _ => (pure (b :: bs) : ExceptT ε Option (List β))) :=
      fun _ _ => steady_const (.ok _)
    simp only [List.mapM_cons]
    rw [returns_bind_iff (hf x) fun b => (Steady.mapM hf xs).bind (hpure b)]
    have htail : ∀ b : β, Returns (fun n => xs.mapM (f n) >>= fun bs => pure (b :: bs)) ↔
        Returns (fun n => xs.mapM (f n)) := by
      intro b
      rw [returns_bind_iff (Steady.mapM hf xs) (hpure b)]
      exact and_iff_left fun bs _ => returns_const (.ok _)
    simp only [htail]
    constructor
    · rintro ⟨hx, hxs⟩ before y after heq hbefore
      cases before with
      | nil =>
        cases heq
        exact hx
      | cons z before =>
        obtain ⟨rfl, rfl⟩ := List.cons.inj heq
        obtain ⟨b, hb⟩ := hbefore x List.mem_cons_self
        exact ih.mp (hxs b hb) before y after rfl fun w hw =>
          hbefore w (List.mem_cons_of_mem x hw)
    · intro hall
      refine ⟨hall [] x xs rfl (by simp), ?_⟩
      rintro b hb
      refine ih.mpr fun before y after heq hbefore => ?_
      refine hall (x :: before) y after (by rw [heq, List.cons_append]) ?_
      intro w hw
      rcases List.mem_cons.mp hw with rfl | hw
      · exact ⟨b, hb⟩
      · exact hbefore w hw

end Rounds

end Programs

end DtgProxy.Lib

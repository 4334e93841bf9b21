import Mathlib

/-! # Fallible computations

Inversion of `Except` computations, so that a successful run is taken apart
step by step without unfolding the monad.
-/
namespace DtgProxy.Lib.Result

universe u v

variable {ε : Type u} {α β : Type v} {f : α → Except ε β} {x : Except ε α}

theorem bind_eq_ok {b : β} :
    (x >>= f) = .ok b ↔ ∃ a, x = .ok a ∧ f a = .ok b := by
  cases x with
  | error | ok => simp [bind, Except.bind]

/-- A check followed by a computation. -/
theorem check_eq_ok {x : Except ε PUnit} {f : PUnit → Except ε β} {b : β} :
    (x >>= f) = .ok b ↔ x = .ok ⟨⟩ ∧ f ⟨⟩ = .ok b := by
  rw [bind_eq_ok]
  exact ⟨fun ⟨_, hx, hf⟩ => ⟨hx, hf⟩, fun ⟨hx, hf⟩ => ⟨⟨⟩, hx, hf⟩⟩

theorem mapError_eq_ok {ε' : Type u} {f : ε → ε'} {a : α} :
    x.mapError f = .ok a ↔ x = .ok a := by
  cases x with
  | error | ok => simp [Except.mapError]

/-- The value of a computation that is known to succeed. -/
def value (x : Except ε α) (h : x.isOk = true) : α :=
  match x, h with
  | .ok a, _ => a

theorem eq_ok_value (x : Except ε α) (h : x.isOk = true) : x = .ok (value x h) := by
  cases x with
  | error => cases h
  | ok => rfl

theorem mapM_eq_ok_map {g : α → β} {xs : List α} (h : ∀ a ∈ xs, f a = .ok (g a)) :
    xs.mapM f = .ok (xs.map g) := by
  induction xs with
  | nil => rfl
  | cons x xs ih =>
    rw [List.mapM_cons, h x List.mem_cons_self, ih fun a ha => h a (List.mem_cons_of_mem _ ha)]
    rfl

/-- A property kept by every successful step holds after a successful fold. -/
theorem foldlM_invariant {σ α : Type v} {step : σ → α → Except ε σ} (P : σ → Prop)
    (hstep : ∀ s a s', P s → step s a = .ok s' → P s') (xs : List α) {s s' : σ} (hs : P s)
    (h : xs.foldlM step s = .ok s') : P s' := by
  induction xs generalizing s with
  | nil =>
    cases h
    exact hs
  | cons x xs ih =>
    obtain ⟨mid, hmid, hrest⟩ := bind_eq_ok.mp h
    exact ih (hstep s x mid hs hmid) hrest

/-- A fold whose every step succeeds. -/
theorem foldlM_eq_ok_foldl {σ α : Type v} {step : σ → α → Except ε σ} {next : σ → α → σ}
    {xs : List α} (h : ∀ s, ∀ a ∈ xs, step s a = .ok (next s a)) (s : σ) :
    xs.foldlM step s = .ok (xs.foldl next s) := by
  induction xs generalizing s with
  | nil => rfl
  | cons x xs ih =>
    rw [List.foldlM_cons, h s x List.mem_cons_self]
    exact ih (fun s a ha => h s a (List.mem_cons_of_mem x ha)) (next s x)

/-- A fold whose steps fail exactly as a test of the element does: it succeeds when
all elements pass the test, and otherwise fails as the first that does not. -/
theorem foldlM_gated {σ α γ : Type v} {step : σ → α → Except ε σ} {gate : α → Except ε γ}
    (I : σ → Prop) {xs : List α}
    (hpass : ∀ s, I s → ∀ a ∈ xs, ∀ c, gate a = .ok c → ∃ s', step s a = .ok s' ∧ I s')
    (hstop : ∀ s, I s → ∀ a ∈ xs, ∀ e, gate a = .error e → step s a = .error e)
    {s : σ} (hs : I s) :
    (∃ s', xs.foldlM step s = .ok s' ∧ I s' ∧ ∀ a ∈ xs, (gate a).isOk = true) ∨
      ∃ before a after e, xs = before ++ a :: after ∧ (∀ b ∈ before, (gate b).isOk = true) ∧
        gate a = .error e ∧ xs.foldlM step s = .error e := by
  induction xs generalizing s with
  | nil => exact .inl ⟨s, rfl, hs, by simp⟩
  | cons x xs ih =>
    rw [List.foldlM_cons]
    cases hgate : gate x with
    | error e =>
      refine .inr ⟨[], x, xs, e, rfl, by simp, hgate, ?_⟩
      rw [hstop s hs x List.mem_cons_self e hgate]
      rfl
    | ok c =>
      obtain ⟨next, hstep, hnext⟩ := hpass s hs x List.mem_cons_self c hgate
      have hx : (gate x).isOk = true := by rw [hgate]; rfl
      have hrest := ih (fun s hs a ha => hpass s hs a (List.mem_cons_of_mem x ha))
        (fun s hs a ha => hstop s hs a (List.mem_cons_of_mem x ha)) hnext
      rw [hstep]
      rcases hrest with ⟨last, hfold, hlast, hall⟩ | ⟨before, a, after, e, rfl, hbefore, ha, hfold⟩
      · exact .inl ⟨last, hfold, hlast, List.forall_mem_cons.mpr ⟨hx, hall⟩⟩
      · exact .inr ⟨x :: before, a, after, e, rfl, List.forall_mem_cons.mpr ⟨hx, hbefore⟩, ha, hfold⟩

section Visits

variable {ε α : Type} {visit : α → Except ε Unit}

theorem foldlM_visit_eq_ok {xs : List α} :
    xs.foldlM (fun _ a => visit a) () = .ok () ↔ ∀ a ∈ xs, visit a = .ok () := by
  induction xs with
  | nil => simp [pure, Except.pure]
  | cons x xs ih =>
    rw [List.foldlM_cons, bind_eq_ok]
    simp only [List.mem_cons, forall_eq_or_imp, ← ih]
    exact ⟨fun ⟨_, hx, hxs⟩ => ⟨hx, hxs⟩, fun ⟨hx, hxs⟩ => ⟨(), hx, hxs⟩⟩

theorem exists_of_foldlM_visit_eq_error {xs : List α} {e : ε}
    (h : xs.foldlM (fun _ a => visit a) () = .error e) : ∃ a ∈ xs, visit a = .error e := by
  induction xs with
  | nil => cases h
  | cons x xs ih =>
    rw [List.foldlM_cons] at h
    cases hx : visit x with
    | error =>
      rw [hx] at h
      cases h
      exact ⟨x, List.mem_cons_self, hx⟩
    | ok =>
      rw [hx] at h
      obtain ⟨a, ha, hvisit⟩ := ih h
      exact ⟨a, List.mem_cons_of_mem _ ha, hvisit⟩

end Visits

end DtgProxy.Lib.Result

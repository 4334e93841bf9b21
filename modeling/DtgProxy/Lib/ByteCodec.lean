import DtgProxy.Lib.BigEndian
import DtgProxy.Lib.Result

/-! # Byte encoders and decoders with a resource budget

An encoder appends to a byte string and a decoder reads from the front of one.
Both may fail and both thread a resource state, such as a remaining budget.
`Writes e d a` says that whatever `e` appends, `d` reads back as `a` with the
same effect on the resource state; it composes along sequencing and loops.
-/
namespace DtgProxy.Lib.ByteCodec

variable {ε σ α β : Type}

/-- A step over a byte string and a resource state.  A decoder reads from the
front of the remaining bytes; an encoder is a step of type `ByteM ε σ Unit` that
appends to the bytes written so far. -/
abbrev ByteM (ε σ α : Type) := StateT (List UInt8 × σ) (Except ε) α

/-- The decoder reads exactly `word` as `a`, whatever follows. -/
def Reads (d : ByteM ε σ α) (a : α) (word : List UInt8) (s s' : σ) : Prop :=
  ∀ rest, d (word ++ rest, s) = .ok (a, rest, s')

/-- What the encoder appends, the decoder reads back as `a`. -/
def Writes (e : ByteM ε σ Unit) (d : ByteM ε σ α) (a : α) : Prop :=
  ∀ bytes s bytes' s', e (bytes, s) = .ok ((), bytes', s') →
    ∃ word, bytes' = bytes ++ word ∧ Reads d a word s s'

/-- As `Writes`, and neither side looks at or changes the resource state. -/
def WritesWord (e : ByteM ε σ Unit) (d : ByteM ε σ α) (a : α) : Prop :=
  ∀ bytes s bytes' s', e (bytes, s) = .ok ((), bytes', s') →
    s' = s ∧ ∃ word, bytes' = bytes ++ word ∧ ∀ t, Reads d a word t t

/-- What the encoder appends, a decoder that starts from the resource state
`start` reads back as `a`. -/
def WritesFrom (start : σ) (e : ByteM ε σ Unit) (d : ByteM ε σ α) (a : α) : Prop :=
  ∀ bytes s bytes' s', e (bytes, s) = .ok ((), bytes', s') →
    ∃ word t, bytes' = bytes ++ word ∧ Reads d a word start t

def fail (err : ε) : ByteM ε σ α := fun _ => .error err

/-- Fails if the bytes written so far are not acceptable. -/
def check (acceptable : List UInt8 → Prop) [DecidablePred acceptable] (err : ε) :
    ByteM ε σ Unit :=
  fun (bytes, s) => if acceptable bytes then .ok ((), bytes, s) else .error err

section Sequencing

variable {d : ByteM ε σ α} {f : α → ByteM ε σ β}
variable {a : α} {e : ByteM ε σ Unit}

theorem Reads.pure (a : α) (s : σ) : Reads (pure a : ByteM ε σ α) a [] s s :=
  fun _ => rfl

variable {b : β}

theorem Reads.bind {word word' : List UInt8} {s s' s'' : σ} (hd : Reads d a word s s')
    (hf : Reads (f a) b word' s' s'') : Reads (d >>= f) b (word ++ word') s s'' := by
  intro rest
  change (d (word ++ word' ++ rest, s) >>= fun p => f p.1 p.2) = _
  rw [List.append_assoc, hd]
  exact hf rest

/-- Post-processing that accepts the value read leaves the rest unread. -/
theorem Reads.then {word : List UInt8} {s s' : σ} (hd : Reads d a word s s')
    (hf : f a = Pure.pure b) :
    Reads (d >>= f) b word s s' := by
  have hpure : Reads (f a) b [] s' s' := by
    rw [hf]
    exact .pure b s'
  simpa using hd.bind hpure

theorem writes_pure (a : α) : Writes (Pure.pure () : ByteM ε σ Unit) (Pure.pure a) a := by
  intro bytes s bytes' s' h
  cases h
  exact ⟨[], by simp, .pure _ _⟩

theorem Writes.bind {e' : ByteM ε σ Unit} (hd : Writes e d a) (hf : Writes e' (f a) b) :
    Writes (e >>= fun _ => e') (d >>= f) b := by
  intro bytes s bytes' s' h
  obtain ⟨⟨_, mid, t⟩, hstep, hrest⟩ := Result.bind_eq_ok.mp h
  obtain ⟨word, rfl, hread⟩ := hd bytes s mid t hstep
  obtain ⟨word', rfl, hread'⟩ := hf _ t bytes' s' hrest
  exact ⟨word ++ word', by rw [List.append_assoc], hread.bind hread'⟩

theorem Writes.then (hd : Writes e d a) (hf : f a = Pure.pure b) : Writes e (d >>= f) b := by
  intro bytes s bytes' s' h
  obtain ⟨word, hbytes, hread⟩ := hd bytes s bytes' s' h
  exact ⟨word, hbytes, hread.then hf⟩

theorem Writes.map (f : α → β) (hd : Writes e d a) : Writes e (f <$> d) (f a) := by
  rw [map_eq_pure_bind]
  exact hd.then rfl

/-- A check before the writes only restricts when the encoder succeeds. -/
theorem Writes.guard {c : Prop} [Decidable c] {err : ε}
    (hd : ¬ c → Writes e d a) : Writes (if c then fail err else e) d a := by
  split_ifs with hc
  · intro bytes s bytes' s' h
    cases h
  · exact hd hc

end Sequencing

section Primitives

def put (word : List UInt8) : ByteM ε σ Unit := fun (bytes, s) => .ok ((), bytes ++ word, s)

/-- Reads exactly `count` bytes; `truncated` is the error when fewer remain. -/
def take (truncated : ε) (count : ℕ) : ByteM ε σ (List UInt8) := fun (bytes, s) =>
  if count ≤ bytes.length then .ok (bytes.take count, bytes.drop count, s) else .error truncated

theorem reads_take {truncated : ε} (word : List UInt8) (s : σ) {count : ℕ}
    (h : word.length = count) : Reads (take truncated count) word word s s := by
  intro rest
  subst h
  simp [take]

theorem writes_put {d : ByteM ε σ α} {a : α} {word : List UInt8}
    (h : ∀ s, Reads d a word s s) : WritesWord (put word) d a := by
  intro bytes s bytes' s' he
  cases he
  exact ⟨rfl, word, rfl, h⟩

/-- Changes only the resource state. -/
def spend (step : σ → Except ε σ) : ByteM ε σ Unit :=
  fun (bytes, s) => do
    let s' ← step s
    .ok ((), bytes, s')

theorem writes_spend (step : σ → Except ε σ) : Writes (spend step) (spend step) () := by
  intro bytes s bytes' s' h
  simp only [spend] at h
  cases hs : step s with
  | error =>
    rw [hs] at h
    cases h
  | ok =>
    rw [hs] at h
    cases h
    refine ⟨[], by simp, fun rest => ?_⟩
    simp only [spend, hs]
    rfl

end Primitives

section Words

variable {e e' : ByteM ε σ Unit} {d : ByteM ε σ α} {f : α → ByteM ε σ β} {a : α} {b : β}

theorem WritesWord.writes (hd : WritesWord e d a) : Writes e d a := by
  intro bytes s bytes' s' h
  obtain ⟨rfl, word, hbytes, hread⟩ := hd bytes s bytes' s' h
  exact ⟨word, hbytes, hread s'⟩

theorem WritesWord.bind (hd : WritesWord e d a) (hf : Writes e' (f a) b) :
    Writes (e >>= fun _ => e') (d >>= f) b :=
  hd.writes.bind hf

theorem WritesWord.bindWord (hd : WritesWord e d a) (hf : WritesWord e' (f a) b) :
    WritesWord (e >>= fun _ => e') (d >>= f) b := by
  intro bytes s bytes' s' h
  obtain ⟨⟨_, mid, t⟩, hstep, hrest⟩ := Result.bind_eq_ok.mp h
  obtain ⟨rfl, word, rfl, hread⟩ := hd bytes s mid t hstep
  obtain ⟨rfl, word', rfl, hread'⟩ := hf _ _ _ _ hrest
  exact ⟨rfl, word ++ word', by rw [List.append_assoc], fun t => (hread t).bind (hread' t)⟩

theorem WritesWord.then (hd : WritesWord e d a) (hf : f a = Pure.pure b) :
    WritesWord e (d >>= f) b := by
  intro bytes s bytes' s' h
  obtain ⟨hs, word, hbytes, hread⟩ := hd bytes s bytes' s' h
  exact ⟨hs, word, hbytes, fun t => (hread t).then hf⟩

theorem WritesWord.guard {c : Prop} [Decidable c] {err : ε} (hd : ¬ c → WritesWord e d a) :
    WritesWord (if c then fail err else e) d a := by
  split_ifs with hc
  · intro bytes s bytes' s' h
    cases h
  · exact hd hc

theorem WritesWord.checked {acceptable : List UInt8 → Prop} [DecidablePred acceptable] {err : ε}
    (hd : WritesWord e d a) : WritesWord (e >>= fun _ => check acceptable err) d a := by
  intro bytes s bytes' s' h
  obtain ⟨⟨_, mid, t⟩, hstep, hcheck⟩ := Result.bind_eq_ok.mp h
  simp only [check] at hcheck
  split_ifs at hcheck
  cases hcheck
  exact hd bytes s _ _ hstep

end Words

section Resources

variable {start mid : σ} {e e' : ByteM ε σ Unit} {d : ByteM ε σ α} {f : α → ByteM ε σ β} {a : α}
  {b : β}

theorem WritesWord.from (hd : WritesWord e d a) (start : σ) : WritesFrom start e d a := by
  intro bytes s bytes' s' h
  obtain ⟨-, word, hbytes, hread⟩ := hd bytes s bytes' s' h
  exact ⟨word, start, hbytes, hread start⟩

theorem WritesWord.bindFrom (hd : WritesWord e d a) (hf : WritesFrom start e' (f a) b) :
    WritesFrom start (e >>= fun _ => e') (d >>= f) b := by
  intro bytes s bytes' s' h
  obtain ⟨⟨_, mid, t⟩, hstep, hrest⟩ := Result.bind_eq_ok.mp h
  obtain ⟨-, word, rfl, hread⟩ := hd _ _ _ _ hstep
  obtain ⟨word', t', rfl, hread'⟩ := hf _ _ _ _ hrest
  exact ⟨word ++ word', t', by rw [List.append_assoc], (hread start).bind hread'⟩

/-- Only the decoder spends. -/
theorem WritesFrom.spending {step : σ → Except ε σ} (hstep : step start = .ok mid)
    (hd : WritesFrom mid e d a) : WritesFrom start e (spend step >>= fun _ => d) a := by
  intro bytes s bytes' s' h
  obtain ⟨word, t, hbytes, hread⟩ := hd bytes s bytes' s' h
  refine ⟨word, t, hbytes, fun rest => ?_⟩
  change (spend step (word ++ rest, start) >>= fun p => d p.2) = _
  simp only [spend, hstep]
  exact hread rest

/-- Only the encoder does, by starting anew from the decoder's state. -/
theorem Writes.restarting (hd : Writes e d a) (start : σ) :
    WritesFrom start (spend (fun _ => .ok start) >>= fun _ => e) d a := by
  intro bytes s bytes' s' h
  obtain ⟨word, hbytes, hread⟩ := hd bytes start bytes' s' h
  exact ⟨word, s', hbytes, hread⟩

theorem WritesFrom.then (hd : WritesFrom start e d a) (hf : f a = Pure.pure b) :
    WritesFrom start e (d >>= f) b := by
  intro bytes s bytes' s' h
  obtain ⟨word, t, hbytes, hread⟩ := hd bytes s bytes' s' h
  exact ⟨word, t, hbytes, hread.then hf⟩

theorem WritesFrom.guard {c : Prop} [Decidable c] {err : ε} (hd : ¬ c → WritesFrom start e d a) :
    WritesFrom start (if c then fail err else e) d a := by
  split_ifs with hc
  · intro bytes s bytes' s' h
    cases h
  · exact hd hc

end Resources

section Loops

/-- Encodes the elements of a list one after another. -/
def encodeAll (e : α → ByteM ε σ Unit) : List α → ByteM ε σ Unit
  | [] => pure ()
  | x :: xs => do
    e x
    encodeAll e xs

def decodeMany (d : ByteM ε σ α) : ℕ → ByteM ε σ (List α)
  | 0 => pure []
  | n + 1 => do
    let x ← d
    let xs ← decodeMany d n
    pure (x :: xs)

theorem encodeAll_map (e : β → ByteM ε σ Unit) (f : α → β) (xs : List α) :
    encodeAll e (xs.map f) = encodeAll (fun x => e (f x)) xs := by
  induction xs with
  | nil => rfl
  | cons x xs ih => rw [List.map_cons, encodeAll, encodeAll, ih]

variable {e : α → ByteM ε σ Unit}

theorem writes_encodeAll {d : ByteM ε σ α} (xs : List α) (h : ∀ x ∈ xs, Writes (e x) d x) :
    Writes (encodeAll e xs) (decodeMany d xs.length) xs := by
  induction xs with
  | nil => exact writes_pure []
  | cons x xs ih =>
    refine (h x List.mem_cons_self).bind (Writes.then (ih fun y hy => h y ?_) rfl)
    exact List.mem_cons_of_mem x hy

theorem writesWord_encodeAll {d : ByteM ε σ α} (xs : List α) (h : ∀ x ∈ xs, WritesWord (e x) d x) :
    WritesWord (encodeAll e xs) (decodeMany d xs.length) xs := by
  induction xs with
  | nil =>
    intro bytes s bytes' s' he
    cases he
    exact ⟨rfl, [], by simp, .pure _⟩
  | cons x xs ih =>
    refine (h x List.mem_cons_self).bindWord (WritesWord.then (ih fun y hy => h y ?_) rfl)
    exact List.mem_cons_of_mem x hy

end Loops

section Sizes

variable {limit n m : ℕ} {e e' : ByteM ε σ Unit}

/-- As long as the bytes stay within `limit`, the encoder appends `n` bytes. -/
def Emits (limit : ℕ) (e : ByteM ε σ Unit) (n : ℕ) : Prop :=
  ∀ bytes s, bytes.length + n ≤ limit →
    ∃ word, word.length = n ∧ e (bytes, s) = .ok ((), bytes ++ word, s)

theorem emits_pure : Emits limit (Pure.pure () : ByteM ε σ Unit) 0 :=
  fun bytes s _ => ⟨[], rfl, by rw [List.append_nil]; rfl⟩

theorem emits_put {word : List UInt8} (h : word.length = n) :
    Emits limit (put word : ByteM ε σ Unit) n :=
  fun _ _ _ => ⟨word, h, rfl⟩

theorem Emits.bind (he : Emits limit e n) (he' : Emits limit e' m) :
    Emits limit (e >>= fun _ => e') (n + m) := by
  intro bytes s hbytes
  obtain ⟨word, hword, hstep⟩ := he bytes s (by omega)
  obtain ⟨word', hword', hstep'⟩ := he' (bytes ++ word) s (by rw [List.length_append]; omega)
  refine ⟨word ++ word', by rw [List.length_append, hword, hword'], ?_⟩
  change (e (bytes, s) >>= fun p => e' p.2) = _
  rw [hstep, ← List.append_assoc]
  exact hstep'

theorem Emits.checked {acceptable : List UInt8 → Prop} [DecidablePred acceptable] {err : ε}
    (hacceptable : ∀ bytes, bytes.length ≤ limit → acceptable bytes) (he : Emits limit e n) :
    Emits limit (e >>= fun _ => check acceptable err) n := by
  intro bytes s hbytes
  obtain ⟨word, hword, hstep⟩ := he bytes s hbytes
  refine ⟨word, hword, ?_⟩
  change (e (bytes, s) >>= fun p => check acceptable err p.2) = _
  rw [hstep]
  exact if_pos (hacceptable _ (by rw [List.length_append]; omega))

theorem emits_encodeAll {e : α → ByteM ε σ Unit} (he : ∀ x, Emits limit (e x) n) (xs : List α) :
    Emits limit (encodeAll e xs) (xs.length * n) := by
  induction xs with
  | nil =>
    rw [List.length_nil, Nat.zero_mul]
    exact emits_pure
  | cons x xs ih =>
    rw [List.length_cons, Nat.succ_mul, Nat.add_comm]
    exact (he x).bind ih

end Sizes

end DtgProxy.Lib.ByteCodec

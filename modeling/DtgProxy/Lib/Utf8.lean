import Mathlib.Data.List.Basic
import Mathlib.Data.UInt

/-! # Byte offsets into a text

A text is a list of characters, and a program that works on its UTF-8 bytes
names places in it by byte offsets.  An offset inside the encoding of a character
is not a place in the text: `suffix` has no value there.
-/
namespace DtgProxy.Lib.Utf8

variable {text rest : List Char} {offset : ℕ}

def bytes (text : List Char) : List UInt8 := text.flatMap String.utf8EncodeChar

/-- What stands at a byte offset and after it. -/
def suffix : List Char → ℕ → Option (List Char)
  | text, 0 => some text
  | [], _ + 1 => none
  | c :: text, offset + 1 =>
    if c.utf8Size ≤ offset + 1 then suffix text (offset + 1 - c.utf8Size) else none

/-- What stands between two byte offsets. -/
def slice (text : List Char) (start stop : ℕ) : Option (List Char) :=
  if start ≤ stop then do
    let rest ← suffix text start
    let after ← suffix text stop
    some (rest.take (rest.length - after.length))
  else none

/-- The offset behind the bytes from `cursor` on that satisfy `p`. -/
def scan (text : List Char) (p : UInt8 → Bool) (cursor : ℕ) : ℕ :=
  cursor + (((bytes text).drop cursor).takeWhile p).length

@[simp] theorem bytes_nil : bytes [] = [] := rfl

@[simp] theorem bytes_cons (c : Char) (text : List Char) :
    bytes (c :: text) = String.utf8EncodeChar c ++ bytes text := rfl

@[simp] theorem suffix_zero (text : List Char) : suffix text 0 = some text := by
  cases text <;> rfl

theorem suffix_cons_add (c : Char) (text : List Char) (offset : ℕ) :
    suffix (c :: text) (c.utf8Size + offset) = suffix text offset := by
  have hpos : 0 < c.utf8Size := c.utf8Size_pos
  obtain ⟨n, hn⟩ : ∃ n, c.utf8Size + offset = n + 1 := ⟨c.utf8Size + offset - 1, by omega⟩
  rw [hn, suffix, if_pos (by omega)]
  congr 1
  omega

variable {c : Char}

/-- A place in a text other than its start is behind the first character. -/
theorem suffix_cons_eq_some (hpos : offset ≠ 0) (h : suffix (c :: text) offset = some rest) :
    ∃ offset', offset = c.utf8Size + offset' ∧ suffix text offset' = some rest := by
  obtain ⟨n, rfl⟩ := Nat.exists_eq_succ_of_ne_zero hpos
  rw [Nat.succ_eq_add_one, suffix] at h
  split_ifs at h with hle
  exact ⟨n + 1 - c.utf8Size, by omega, h⟩

/-- The bytes from a place on are those of what stands there. -/
theorem drop_bytes (h : suffix text offset = some rest) :
    (bytes text).drop offset = bytes rest := by
  induction text generalizing offset with
  | nil =>
    cases offset with
    | zero =>
      cases h
      rfl
    | succ => cases h
  | cons c text ih =>
    by_cases hzero : offset = 0
    · subst hzero
      rw [suffix_zero] at h
      cases h
      rfl
    · obtain ⟨offset', rfl, h'⟩ := suffix_cons_eq_some hzero h
      rw [bytes_cons, ← String.length_utf8EncodeChar, List.drop_append, Nat.add_sub_cancel_left,
        ih h', List.drop_eq_nil_of_le (Nat.le_add_right _ _), List.nil_append]

theorem length_bytes (h : suffix text offset = some rest) :
    (bytes text).length = offset + (bytes rest).length := by
  induction text generalizing offset with
  | nil =>
    cases offset with
    | zero =>
      cases h
      rfl
    | succ => cases h
  | cons c text ih =>
    by_cases hzero : offset = 0
    · subst hzero
      rw [suffix_zero] at h
      cases h
      simp
    · obtain ⟨offset', rfl, h'⟩ := suffix_cons_eq_some hzero h
      rw [bytes_cons, List.length_append, String.length_utf8EncodeChar, ih h']
      omega

/-- The place behind a character. -/
theorem suffix_add_utf8Size (h : suffix text offset = some (c :: rest)) :
    suffix text (offset + c.utf8Size) = some rest := by
  induction text generalizing offset with
  | nil =>
    cases offset with
    | zero => cases h
    | succ => cases h
  | cons d text ih =>
    by_cases hzero : offset = 0
    · subst hzero
      rw [suffix_zero] at h
      cases h
      have hnext := suffix_cons_add c rest 0
      rwa [suffix_zero, Nat.add_comm] at hnext
    · obtain ⟨offset', rfl, h'⟩ := suffix_cons_eq_some hzero h
      rw [Nat.add_assoc, suffix_cons_add]
      exact ih h'

variable {b : UInt8}

/-- At a place in the text, a byte below 128 is a whole character. -/
theorem utf8EncodeChar_of_lt {tail : List UInt8} (h : String.utf8EncodeChar c = b :: tail)
    (hb : b.toNat < 128) :
    c.utf8Size = 1 ∧ c.toNat = b.toNat := by
  have hlength := String.length_utf8EncodeChar c
  have hsmall : c.val.toNat ≤ 127 := by
    -- The first byte of every longer encoding is at least 192.
    by_contra hlarge
    unfold String.utf8EncodeChar at h
    dsimp only at h
    rw [if_neg hlarge] at h
    have hfirst : ∀ n k : ℕ, n + k < 256 → 128 ≤ k → UInt8.ofNat (n + k) = b → False := by
      intro n k hlt hk heq
      rw [← heq, UInt8.toNat_ofNat_of_lt' hlt] at hb
      omega
    split_ifs at h
    · exact hfirst _ 192 (by omega) (by decide) (List.cons.inj h).1
    · exact hfirst _ 224 (by omega) (by decide) (List.cons.inj h).1
    · exact hfirst _ 240 (by omega) (by decide) (List.cons.inj h).1
  have hencode : String.utf8EncodeChar c = [UInt8.ofNat c.val.toNat] := by
    unfold String.utf8EncodeChar
    exact if_pos hsmall
  rw [hencode] at h hlength
  obtain ⟨rfl, -⟩ := List.cons.inj h
  have hlt : c.val.toNat < UInt8.size := lt_of_le_of_lt hsmall (by decide)
  exact ⟨hlength.symm, (UInt8.toNat_ofNat_of_lt' hlt).symm⟩

/-- The byte at a place belongs to the character that stands there. -/
theorem suffix_cons_of_byte (h : suffix text offset = some rest)
    (hb : (bytes text)[offset]? = some b) :
    ∃ c tail more, rest = c :: more ∧ String.utf8EncodeChar c = b :: tail := by
  have hhead : (bytes rest)[0]? = some b := by
    rw [← drop_bytes h, List.getElem?_drop]
    exact hb
  cases rest with
  | nil => cases hhead
  | cons c more =>
    cases hencode : String.utf8EncodeChar c with
    | nil =>
      have hlength := String.length_utf8EncodeChar c
      have hpos : 0 < c.utf8Size := c.utf8Size_pos
      rw [hencode] at hlength
      simp at hlength
      omega
    | cons b' tail =>
      rw [bytes_cons, hencode] at hhead
      cases hhead
      exact ⟨c, tail, more, rfl, hencode⟩

/-- The place behind a byte below 128. -/
theorem suffix_succ_of_lt (h : suffix text offset = some rest)
    (hb : (bytes text)[offset]? = some b) (hlt : b.toNat < 128) :
    ∃ c more, rest = c :: more ∧ c.toNat = b.toNat ∧ suffix text (offset + 1) = some more := by
  obtain ⟨c, tail, more, rfl, hencode⟩ := suffix_cons_of_byte h hb
  obtain ⟨hsize, hval⟩ := utf8EncodeChar_of_lt hencode hlt
  have hnext := suffix_add_utf8Size h
  rw [hsize] at hnext
  exact ⟨c, more, rfl, hval, hnext⟩

/-- Scanning over bytes below 128 leads from a place in the text to a place. -/
theorem exists_suffix_scan {cursor : ℕ} {p : UInt8 → Bool} (hp : ∀ b, p b = true → b.toNat < 128)
    (h : suffix text cursor = some rest) :
    ∃ more, suffix text (scan text p cursor) = some more := by
  unfold scan
  rw [drop_bytes h]
  induction rest generalizing cursor with
  | nil => exact ⟨[], by simpa using h⟩
  | cons c rest ih =>
    cases hencode : String.utf8EncodeChar c with
    | nil =>
      have hpos : 0 < c.utf8Size := c.utf8Size_pos
      have hlength := String.length_utf8EncodeChar c
      rw [hencode, List.length_nil] at hlength
      omega
    | cons b tail =>
      by_cases hpb : p b = true
      · obtain ⟨hsize, -⟩ := utf8EncodeChar_of_lt hencode (hp b hpb)
        have htail : tail = [] := by
          have hlength := String.length_utf8EncodeChar c
          rw [hencode, hsize, List.length_cons] at hlength
          exact List.length_eq_zero_iff.mp (by omega)
        have hnext := suffix_add_utf8Size h
        rw [hsize] at hnext
        obtain ⟨more, hmore⟩ := ih hnext
        refine ⟨more, ?_⟩
        rw [bytes_cons, hencode, htail, List.cons_append, List.nil_append, List.takeWhile_cons,
          if_pos hpb, List.length_cons, ← hmore]
        congr 1
        omega
      · refine ⟨c :: rest, ?_⟩
        rw [bytes_cons, hencode, List.cons_append, List.takeWhile_cons, if_neg hpb]
        exact h

theorem le_scan (text : List Char) (p : UInt8 → Bool) (cursor : ℕ) : cursor ≤ scan text p cursor :=
  Nat.le_add_right _ _

theorem exists_slice {more : List Char} {start stop : ℕ} (hle : start ≤ stop)
    (hstart : suffix text start = some rest) (hstop : suffix text stop = some more) :
    ∃ part, slice text start stop = some part := by
  unfold slice
  rw [if_pos hle, hstart, hstop]
  exact ⟨_, rfl⟩

end DtgProxy.Lib.Utf8

import Mathlib

/-! # Fixed-width big-endian encodings of naturals

`encode w n` is the `w`-byte word of `n`, most significant byte first, and
`decode` reads a word back.  Words concatenated in a fixed order are read back
by offset with `slice`.
-/
namespace DtgProxy.Lib.BigEndian

/-- The `w` big-endian bytes of `n`; bits above `8 * w` are dropped. -/
def encode : ℕ → ℕ → List UInt8
  | 0, _ => []
  | w + 1, n => encode w (n / 256) ++ [UInt8.ofNat n]

def decode (bytes : List UInt8) : ℕ :=
  bytes.foldl (fun acc b => acc * 256 + b.toNat) 0

@[simp] theorem length_encode (w n : ℕ) : (encode w n).length = w := by
  induction w generalizing n with
  | zero => rfl
  | succ w ih => simp [encode, ih]

@[simp] theorem decode_concat (bytes : List UInt8) (b : UInt8) :
    decode (bytes ++ [b]) = decode bytes * 256 + b.toNat := by
  simp [decode]

theorem decode_encode_mod (w n : ℕ) : decode (encode w n) = n % 256 ^ w := by
  induction w generalizing n with
  | zero => simp [encode, decode, Nat.mod_one]
  | succ w ih =>
    have h : n % 256 ^ (w + 1) = n % 256 + 256 * (n / 256 % 256 ^ w) := by
      rw [pow_succ', Nat.mod_mul]
    rw [encode, decode_concat, ih, UInt8.toNat_ofNat', h]
    omega

theorem decode_encode {w n : ℕ} (h : n < 256 ^ w) : decode (encode w n) = n := by
  rw [decode_encode_mod, Nat.mod_eq_of_lt h]

theorem decode_lt (bytes : List UInt8) : decode bytes < 256 ^ bytes.length := by
  induction bytes using List.reverseRecOn with
  | nil => simp [decode]
  | append_singleton bytes b =>
    have hb : b.toNat < 256 := b.toNat_lt
    rw [decode_concat, List.length_append, List.length_singleton, pow_succ]
    omega

theorem encode_injective {w n m : ℕ} (hn : n < 256 ^ w) (hm : m < 256 ^ w)
    (h : encode w n = encode w m) : n = m := by
  rw [← decode_encode hn, ← decode_encode hm, h]

/-- The bytes from offset `start` up to, not including, offset `stop`. -/
def slice (bytes : List UInt8) (start stop : ℕ) : List UInt8 :=
  (bytes.drop start).take (stop - start)

theorem slice_append {before word after : List UInt8} {start stop : ℕ}
    (hstart : before.length = start) (hstop : word.length = stop - start) :
    slice (before ++ word ++ after) start stop = word := by
  subst hstart
  rw [slice, ← hstop, List.append_assoc, List.drop_left, List.take_left]

/-- The field at position `i` of a record of consecutive words. -/
theorem slice_flatten {words : List (List UInt8)} (i : ℕ) {word : List UInt8} {start stop : ℕ}
    (hword : words[i]? = some word) (hstart : (words.take i).flatten.length = start)
    (hstop : word.length = stop - start) : slice words.flatten start stop = word := by
  obtain ⟨hi, rfl⟩ := List.getElem?_eq_some_iff.mp hword
  have hsplit : words = words.take i ++ words[i] :: words.drop (i + 1) := by
    rw [List.getElem_cons_drop, List.take_append_drop]
  have hflatten : words.flatten =
      (words.take i).flatten ++ words[i] ++ (words.drop (i + 1)).flatten := by
    conv_lhs => rw [hsplit, List.flatten_append, List.flatten_cons, ← List.append_assoc]
  rw [hflatten]
  exact slice_append hstart hstop

theorem getD_of_slice {bytes : List UInt8} {n : ℕ} {b d : UInt8}
    (h : slice bytes n (n + 1) = [b]) : bytes.getD n d = b := by
  rw [slice, Nat.add_sub_cancel_left] at h
  have hget : (bytes.drop n)[0]? = some b := by
    have := congrArg (·[0]?) h
    simpa using this
  simp only [List.getElem?_drop, Nat.add_zero] at hget
  simp [List.getD, hget]

theorem getD_append_cons {before after : List UInt8} {b d : UInt8} {n : ℕ}
    (h : before.length = n) : (before ++ b :: after).getD n d = b := by
  subst h
  simp

end DtgProxy.Lib.BigEndian

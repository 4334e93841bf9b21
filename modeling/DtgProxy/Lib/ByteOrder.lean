import DtgProxy.Lib.BigEndian

/-! # The order of byte strings

Ordered keyspaces compare keys byte by byte.  On words of a fixed width this is the
order of the numbers, and on records of such words the order of the fields from the
first to the last.
-/
namespace DtgProxy.Lib

/-- A key of an ordered keyspace. -/
@[ext] structure ByteKey where
  bytes : List UInt8
deriving DecidableEq, Repr

namespace ByteKey

def digits (bytes : List UInt8) : List ℕ := bytes.map UInt8.toNat

theorem digits_injective : Function.Injective digits :=
  List.map_injective_iff.mpr fun _ _ => UInt8.toNat_inj.mp

theorem digits_append (a b : List UInt8) : digits (a ++ b) = digits a ++ digits b :=
  List.map_append

instance : LinearOrder ByteKey :=
  LinearOrder.lift' (fun key => digits key.bytes) fun _ _ h => ByteKey.ext (digits_injective h)

theorem lt_def (a b : ByteKey) : a < b ↔ digits a.bytes < digits b.bytes := Iff.rfl

/-- Strings of one length are compared before what follows them. -/
theorem append_lt_append_iff {a a' b b' : List ℕ} (h : a.length = a'.length) :
    a ++ b < a' ++ b' ↔ a < a' ∨ (a = a' ∧ b < b') := by
  induction a generalizing a' with
  | nil =>
    obtain rfl := List.length_eq_zero_iff.mp h.symm
    simp
  | cons x a ih =>
    cases a' with
    | nil => cases h
    | cons =>
      rw [List.cons_append, List.cons_append, List.cons_lt_cons_iff, List.cons_lt_cons_iff,
        ih (Nat.succ.inj h), List.cons.injEq]
      tauto

theorem digits_encode_eq_iff {w n m : ℕ} (hn : n < 256 ^ w) (hm : m < 256 ^ w) :
    digits (BigEndian.encode w n) = digits (BigEndian.encode w m) ↔ n = m :=
  ⟨fun h => BigEndian.encode_injective hn hm (digits_injective h), fun h => by rw [h]⟩

/-- Words are in the order of their numbers. -/
theorem digits_encode_lt_iff {w n m : ℕ} (hn : n < 256 ^ w) (hm : m < 256 ^ w) :
    digits (BigEndian.encode w n) < digits (BigEndian.encode w m) ↔ n < m := by
  induction w generalizing n m with
  | zero =>
    rw [pow_zero, Nat.lt_one_iff] at hn hm
    simp [BigEndian.encode, digits, hn, hm]
  | succ w ih =>
    have hn' : n / 256 < 256 ^ w := Nat.div_lt_of_lt_mul (by rwa [← pow_succ'])
    have hm' : m / 256 < 256 ^ w := Nat.div_lt_of_lt_mul (by rwa [← pow_succ'])
    have hlength : (digits (BigEndian.encode w (n / 256))).length =
        (digits (BigEndian.encode w (m / 256))).length := by simp [digits]
    rw [BigEndian.encode, BigEndian.encode, digits_append, digits_append,
      append_lt_append_iff hlength, ih hn' hm', digits_encode_eq_iff hn' hm']
    simp only [digits, List.map_cons, List.map_nil, List.cons_lt_cons_iff, List.not_lt_nil, and_false,
      or_false, UInt8.toNat_ofNat']
    omega

/-- A word decides before what follows it. -/
theorem digits_field_lt_iff {w n m : ℕ} (hn : n < 256 ^ w) (hm : m < 256 ^ w)
    (rest rest' : List UInt8) :
    digits (BigEndian.encode w n ++ rest) < digits (BigEndian.encode w m ++ rest') ↔
      n < m ∨ (n = m ∧ digits rest < digits rest') := by
  have hlength : (digits (BigEndian.encode w n)).length =
      (digits (BigEndian.encode w m)).length := by simp [digits]
  rw [digits_append, digits_append, append_lt_append_iff hlength, digits_encode_lt_iff hn hm,
    digits_encode_eq_iff hn hm]

end ByteKey

end DtgProxy.Lib

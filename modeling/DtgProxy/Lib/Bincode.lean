import DtgProxy.Lib.ByteCodec

/-! # The variable-width integers of `bincode`

The format that the specification of the crate (version 2.0.1) gives for its standard
configuration, which is little endian with variable-width integers.  A number below 251
is one byte; a larger one is a tag, 251 to 254, and the shortest word of 2, 4, 8 or 16
bytes that holds it.  A byte vector is its length and then its bytes.
-/
namespace DtgProxy.Lib.Bincode

open ByteCodec

inductive DecodeError where
  | unexpectedEnd
  | invalidIntegerType
deriving DecidableEq, Repr

abbrev Decoder (α : Type) := ByteM DecodeError Unit α

/-- The least significant byte comes first. -/
def littleEndian (width n : ℕ) : List UInt8 := (BigEndian.encode width n).reverse

def ofLittleEndian (bytes : List UInt8) : ℕ := BigEndian.decode bytes.reverse

@[simp] theorem length_littleEndian (width n : ℕ) : (littleEndian width n).length = width := by
  simp [littleEndian]

theorem ofLittleEndian_littleEndian {width n : ℕ} (h : n < 256 ^ width) :
    ofLittleEndian (littleEndian width n) = n := by
  rw [ofLittleEndian, littleEndian, List.reverse_reverse, BigEndian.decode_encode h]

def varint (n : ℕ) : List UInt8 :=
  if n < 251 then [UInt8.ofNat n]
  else if n < 256 ^ 2 then 251 :: littleEndian 2 n
  else if n < 256 ^ 4 then 252 :: littleEndian 4 n
  else if n < 256 ^ 8 then 253 :: littleEndian 8 n
  else 254 :: littleEndian 16 n

/-- The width of the word that follows a tag. -/
def wordWidth : UInt8 → Option ℕ
  | 251 => some 2
  | 252 => some 4
  | 253 => some 8
  | 254 => some 16
  | _ => none

/-- What follows the first byte of a number read as an integer of `width` bytes. -/
def readTagged (width : ℕ) : List UInt8 → Decoder ℕ
  | [tag] =>
    if tag.toNat < 251 then pure tag.toNat
    else
      match wordWidth tag with
      | some wide =>
        if wide ≤ width then do
          let word ← take .unexpectedEnd wide
          pure (ofLittleEndian word)
        else fail .invalidIntegerType
      | none => fail .invalidIntegerType
  | _ => fail .unexpectedEnd

def readVarint (width : ℕ) : Decoder ℕ := do
  let head ← take .unexpectedEnd 1
  readTagged width head

def byteVec (bytes : List UInt8) : List UInt8 := varint bytes.length ++ bytes

def readByteVec : Decoder (List UInt8) := do
  let count ← readVarint 8
  take .unexpectedEnd count

theorem reads_tagged {width wide n : ℕ} {tag : UInt8} (htag : wordWidth tag = some wide)
    (hwide : wide ≤ width) (hn : n < 256 ^ wide) :
    Reads (readVarint width) n (tag :: littleEndian wide n) () () := by
  have hlarge : ¬ tag.toNat < 251 := by
    revert htag
    unfold wordWidth
    split <;> simp
  have htake : Reads (take DecodeError.unexpectedEnd wide) (littleEndian wide n)
      (littleEndian wide n) () () := reads_take _ _ (length_littleEndian wide n)
  refine (reads_take [tag] () rfl).bind ?_
  rw [readTagged, if_neg hlarge, htag]
  simp only [if_pos hwide]
  exact htake.then (by rw [ofLittleEndian_littleEndian hn])

/-- A number that fits the integer type is read back, whatever follows. -/
theorem reads_varint {width n : ℕ} (hwidth : width = 4 ∨ width = 8 ∨ width = 16)
    (hn : n < 256 ^ width) : Reads (readVarint width) n (varint n) () () := by
  unfold varint
  split_ifs with h1 h2 h4 h8
  · have hbyte : (UInt8.ofNat n).toNat = n := by
      rw [UInt8.toNat_ofNat', Nat.mod_eq_of_lt (by omega)]
    refine (reads_take [UInt8.ofNat n] () rfl).then ?_
    rw [readTagged, if_pos (by omega), hbyte]
  · exact reads_tagged rfl (by omega) h2
  · exact reads_tagged rfl (by omega) h4
  · refine reads_tagged rfl ?_ h8
    rcases hwidth with rfl | rfl | rfl
    · exact absurd hn h4
    · exact le_refl 8
    · omega
  · rcases hwidth with rfl | rfl | rfl
    · exact absurd hn h4
    · exact absurd hn h8
    · exact reads_tagged rfl (le_refl 16) hn

theorem reads_byteVec {bytes : List UInt8} (h : bytes.length < 256 ^ 8) :
    Reads readByteVec bytes (byteVec bytes) () () :=
  (reads_varint (.inr (.inl rfl)) h).bind (reads_take bytes () rfl)

example : varint 250 = [250] := by decide

example : varint 1000 = [251, 232, 3] := by decide

end DtgProxy.Lib.Bincode

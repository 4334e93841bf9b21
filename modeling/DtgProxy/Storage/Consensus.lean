import DtgProxy.Lib.Bincode
import DtgProxy.Storage.Store

/-! # Consensus entries and their stored form

An entry of the replicated log and the bytes Fjall keeps for it.  The digests an
entry carries are functions of its payload and are left out; they never make two
entries differ.
-/
namespace DtgProxy.Storage

open Kernel Lib Lib.ByteCodec Lib.Bincode

/-- An opaque command of a supported format. -/
@[ext] structure ConsensusCommandEnvelope where
  formatVersion : ℕ
  payload : List UInt8
  supported : formatVersion = 1
  nonempty : payload ≠ []
  bounded : payload.length < 256 ^ 8
deriving DecidableEq, Repr

/-- The checked constructor.  A payload whose length does not fit a word cannot be
passed in the source. -/
def ConsensusCommandEnvelope.new (formatVersion : ℕ) (payload : List UInt8) :
    Except StorageError ConsensusCommandEnvelope :=
  if h : formatVersion = 1 ∧ payload ≠ [] ∧ payload.length < 256 ^ 8 then
    .ok ⟨formatVersion, payload, h.1, h.2.1, h.2.2⟩
  else .error (.invalidConsensus "unsupported or empty consensus command envelope")

@[ext] structure ConsensusEntry where
  walFormatVersion : ℕ
  term : ℕ
  index : ℕ
  commandId : CommandId
  command : ConsensusCommandEnvelope
  supported : walFormatVersion = 1
  term_ne_zero : term ≠ 0
  term_lt : term < 256 ^ 8
  index_ne_zero : index ≠ 0
  index_lt : index < 256 ^ 8
deriving Repr

instance : DecidableEq ConsensusEntry := fun _ _ => decidable_of_iff _ ConsensusEntry.ext_iff.symm

/-- The checked constructor, on words. -/
def ConsensusEntry.new (walFormatVersion term index : ℕ) (commandId : CommandId)
    (command : ConsensusCommandEnvelope) : Except StorageError ConsensusEntry :=
  if h : walFormatVersion = 1 ∧ term ≠ 0 ∧ term < 256 ^ 8 ∧ index ≠ 0 ∧ index < 256 ^ 8 then
    .ok ⟨walFormatVersion, term, index, commandId, command, h.1, h.2.1, h.2.2.1, h.2.2.2.1,
      h.2.2.2.2⟩
  else
    .error (.invalidConsensus "unsupported consensus WAL format or incomplete entry identity")

theorem ConsensusCommandEnvelope.new_fields (command : ConsensusCommandEnvelope) :
    new command.formatVersion command.payload = .ok command :=
  dif_pos ⟨command.supported, command.nonempty, command.bounded⟩

variable (entry : ConsensusEntry)

theorem ConsensusEntry.new_fields :
    new entry.walFormatVersion entry.term entry.index entry.commandId entry.command =
      .ok entry :=
  dif_pos ⟨entry.supported, entry.term_ne_zero, entry.term_lt, entry.index_ne_zero, entry.index_lt⟩

/-! ## The stored bytes -/

/-- The record written for an entry, before its fields are checked. -/
structure WireConsensusEntry where
  version : ℕ
  walFormatVersion : ℕ
  term : ℕ
  index : ℕ
  commandId : ℕ
  commandFormatVersion : ℕ
  payload : List UInt8

def codecVersion : ℕ := 1

def WireConsensusEntry.encode (wire : WireConsensusEntry) : List UInt8 :=
  varint wire.version ++ (varint wire.walFormatVersion ++ (varint wire.term ++
    (varint wire.index ++ (varint wire.commandId ++ (varint wire.commandFormatVersion ++
      byteVec wire.payload)))))

def WireConsensusEntry.read : Decoder WireConsensusEntry := do
  let version ← readVarint 4
  let walFormatVersion ← readVarint 4
  let term ← readVarint 8
  let index ← readVarint 8
  let commandId ← readVarint 16
  let commandFormatVersion ← readVarint 4
  let payload ← readByteVec
  pure ⟨version, walFormatVersion, term, index, commandId, commandFormatVersion, payload⟩

/-- The widths of the fields. -/
structure WireConsensusEntry.Fits (wire : WireConsensusEntry) : Prop where
  version : wire.version < 256 ^ 4
  walFormatVersion : wire.walFormatVersion < 256 ^ 4
  term : wire.term < 256 ^ 8
  index : wire.index < 256 ^ 8
  commandId : wire.commandId < 256 ^ 16
  commandFormatVersion : wire.commandFormatVersion < 256 ^ 4
  payload : wire.payload.length < 256 ^ 8

theorem WireConsensusEntry.reads_encode {wire : WireConsensusEntry} (h : wire.Fits) :
    Reads read wire wire.encode () () := by
  refine (reads_varint (.inl rfl) h.version).bind ?_
  refine (reads_varint (.inl rfl) h.walFormatVersion).bind ?_
  refine (reads_varint (.inr (.inl rfl)) h.term).bind ?_
  refine (reads_varint (.inr (.inl rfl)) h.index).bind ?_
  refine (reads_varint (.inr (.inr rfl)) h.commandId).bind ?_
  refine (reads_varint (.inl rfl) h.commandFormatVersion).bind ?_
  exact (reads_byteVec h.payload).then rfl

/-- Reads a whole value.  The crate's rendering of its own errors is left out. -/
def decodeValue {α : Type} (read : Decoder α) (bytes : List UInt8) : Except StorageError α :=
  match read (bytes, ()) with
  | .error _ => .error (.internal "Fjall decoding failed")
  | .ok (value, rest, _) =>
    if rest = [] then .ok value
    else .error (.internal "Fjall value contains trailing bytes")

theorem decodeValue_of_reads {α : Type} {read : Decoder α} {value : α} {bytes : List UInt8}
    (h : Reads read value bytes () ()) : decodeValue read bytes = .ok value := by
  have hread := h []
  rw [List.append_nil] at hread
  rw [decodeValue, hread]
  rfl

def requireVersion (version : ℕ) (name : String) : Except StorageError Unit :=
  if version = codecVersion then .ok ()
  else .error (.internal ("unsupported Fjall " ++ name ++ " codec version " ++ toString version))

def ConsensusEntry.wire (entry : ConsensusEntry) : WireConsensusEntry :=
  ⟨codecVersion, entry.walFormatVersion, entry.term, entry.index, entry.commandId.get,
    entry.command.formatVersion, entry.command.payload⟩

def encodeConsensusEntry (entry : ConsensusEntry) : List UInt8 := entry.wire.encode

def decodeConsensusEntry (bytes : List UInt8) : Except StorageError ConsensusEntry := do
  let wire ← decodeValue WireConsensusEntry.read bytes
  requireVersion wire.version "consensus entry"
  match Identifier.new wire.commandId with
  | none => .error (.invalidBatch "command identifier must be nonzero")
  | some commandId =>
    let command ← ConsensusCommandEnvelope.new wire.commandFormatVersion wire.payload
    ConsensusEntry.new wire.walFormatVersion wire.term wire.index commandId command

theorem ConsensusEntry.fits_wire : entry.wire.Fits where
  version := by
    change codecVersion < _
    decide
  walFormatVersion := by
    change entry.walFormatVersion < _
    rw [entry.supported]
    decide
  term := entry.term_lt
  index := entry.index_lt
  commandId := entry.commandId.inRange
  commandFormatVersion := by
    change entry.command.formatVersion < _
    rw [entry.command.supported]
    decide
  payload := entry.command.bounded

/-- What is stored for an entry is read back as that entry. -/
theorem decode_encodeConsensusEntry :
    decodeConsensusEntry (encodeConsensusEntry entry) = .ok entry := by
  rw [decodeConsensusEntry, encodeConsensusEntry,
    decodeValue_of_reads (WireConsensusEntry.reads_encode entry.fits_wire)]
  have hversion : requireVersion entry.wire.version "consensus entry" = .ok () := rfl
  have hcommandId : Identifier.new entry.wire.commandId = some entry.commandId :=
    Identifier.new_get _
  have hcommand : ConsensusCommandEnvelope.new entry.wire.commandFormatVersion
      entry.wire.payload = .ok entry.command := entry.command.new_fields
  simp only [Bind.bind, Except.bind, hversion, hcommandId, hcommand]
  exact entry.new_fields

end DtgProxy.Storage

import BlockTransfer.Block
import BlockTransfer.Config

/-!
# Transfer options

Which protocol is spoken, in which variant, and with which settings.
-/

namespace BlockTransfer

/-- A file transfer protocol. -/
inductive Protocol
  /-- A single file without a header. -/
  | xmodem
  /-- A batch of files, each with a header block. -/
  | ymodem
  deriving DecidableEq, Repr

namespace Protocol

/-- The name that is shown. -/
def label : Protocol → String
  | .xmodem => "XMODEM"
  | .ymodem => "YMODEM"

/-- The name in settings and on the command line. -/
def name : Protocol → String
  | .xmodem => "xmodem"
  | .ymodem => "ymodem"

/-- The protocol of a given name. -/
def ofName? (name : String) : Option Protocol :=
  [xmodem, ymodem].find? (·.name == name)

/-- Reading back the name of a protocol gives the protocol. -/
@[simp]
theorem ofName?_name (protocol : Protocol) : ofName? protocol.name = some protocol := by
  cases protocol <;> decide

end Protocol

/-- What a receiver asks for: block check, block size and flow. -/
inductive Variant
  /-- 128 bytes with a checksum. -/
  | checksum
  /-- 128 bytes with a cyclic check. -/
  | crc
  /-- 1024 bytes with a cyclic check. -/
  | oneK
  /-- 1024 bytes with a cyclic check, and no answers to single blocks. -/
  | streaming
  deriving DecidableEq, Repr

namespace Variant

/-- The size of full data blocks. -/
def blockSize : Variant → BlockSize
  | .checksum | .crc => .short
  | .oneK | .streaming => .long

/-- The block check that is asked for. -/
def trailer : Variant → Trailer
  | .checksum => .checksum
  | .crc | .oneK | .streaming => .crc

/-- The signal with which a receiver asks for the variant. -/
def handshake : Variant → Control
  | .checksum => .nak
  | .crc | .oneK => .crcRequest
  | .streaming => .streamRequest

theorem handshake_eq_crcRequest_iff {variant : Variant} :
    variant.handshake = .crcRequest ↔ variant = .crc ∨ variant = .oneK := by
  cases variant <;> simp [handshake]

/-- Whether blocks follow each other without answers. -/
def isStreaming : Variant → Bool
  | .streaming => true
  | .checksum | .crc | .oneK => false

theorem handshake_of_isStreaming {variant : Variant} (h : variant.isStreaming = true) :
    variant.handshake = .streamRequest := by
  cases variant with
  | streaming => rfl
  | checksum | crc | oneK => cases h

/-- The name in settings and on the command line. -/
def name : Variant → String
  | .checksum => "checksum"
  | .crc => "crc"
  | .oneK => "1k"
  | .streaming => "g"

/-- The variant of a given name. -/
def ofName? (name : String) : Option Variant :=
  [checksum, crc, oneK, streaming].find? (·.name == name)

/-- Reading back the name of a variant gives the variant. -/
@[simp]
theorem ofName?_name (variant : Variant) : ofName? variant.name = some variant := by
  cases variant <;> decide

/-- What the variant adds to the name of the protocol. -/
def suffix : Variant → String
  | .checksum => ""
  | .crc => "-CRC"
  | .oneK => "-1K"
  | .streaming => "-G"

end Variant

/-- All that a transfer needs besides the channel and the files. -/
structure Options where
  /-- The protocol to speak. -/
  protocol : Protocol
  /-- The variant to ask for or to offer. -/
  variant : Variant
  /-- Whether the last block is filled up as in a text file. -/
  textMode : Bool := false
  /-- Timeouts and retry limits. -/
  config : Config := {}
  deriving DecidableEq, Repr

namespace Options

/-- The byte that fills up the last block. -/
def pad (options : Options) : UInt8 :=
  if options.textMode then textPad else 0

/-- The error of options that no transfer can run with. -/
def check (options : Options) : Option TransferError :=
  options.config.firstZero?.map fun limit => .invalidArgument limit.message

/-- Options are refused with the message of a limit that is zero. -/
theorem eq_invalidArgument_of_check {options : Options} {e : TransferError}
    (h : options.check = some e) : ∃ text, e = .invalidArgument text := by
  obtain ⟨limit, -, rfl⟩ := Option.map_eq_some_iff.mp h
  exact ⟨limit.message, rfl⟩

/-- Options are accepted if and only if every limit is positive. -/
theorem check_eq_none_iff {options : Options} :
    options.check = none ↔ ∀ limit, 0 < options.config.limit limit := by
  rw [check, Option.map_eq_none_iff, Config.firstZero?_eq_none_iff]

/-- The name that is shown for protocol and variant. -/
def label (options : Options) : String :=
  options.protocol.label ++ options.variant.suffix

/-- The name under which a transfer with these options is announced when it begins, which it
does not if no transfer can run with them. -/
def announcement? (options : Options) : Option String :=
  match options.check with
  | some _ => none
  | none => some options.label

end Options

end BlockTransfer

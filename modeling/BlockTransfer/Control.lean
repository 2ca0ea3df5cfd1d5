/-!
# Control bytes

The single bytes that the two parties exchange between blocks, and the bytes that start a block.
-/

namespace BlockTransfer

/-- A signal of one byte between blocks. -/
inductive Control
  /-- The block is accepted. -/
  | ack
  /-- The block is refused, or blocks with a checksum are asked for. -/
  | nak
  /-- The transfer is cancelled. -/
  | can
  /-- The file ends. -/
  | eot
  /-- Blocks with a cyclic check are asked for. -/
  | crcRequest
  /-- A stream of blocks without answers is asked for. -/
  | streamRequest
  deriving DecidableEq, Repr

namespace Control

/-- The byte on the wire: 4, 6, 21, 24, or the letters `C` and `G`. -/
def byte : Control → UInt8
  | .ack => 0x06
  | .nak => 0x15
  | .can => 0x18
  | .eot => 0x04
  | .crcRequest => 0x43
  | .streamRequest => 0x47

/-- All signals. -/
def all : List Control :=
  [.ack, .nak, .can, .eot, .crcRequest, .streamRequest]

/-- The signal that a byte stands for. -/
def ofByte? (byte : UInt8) : Option Control :=
  all.find? (·.byte == byte)

/-- Reading back the byte of a signal gives the signal. -/
@[simp]
theorem ofByte?_byte (signal : Control) : ofByte? signal.byte = some signal := by
  cases signal <;> decide

/-- A byte stands for the signal whose byte it is, and for no other. -/
theorem ofByte?_eq_some_iff {byte : UInt8} {signal : Control} :
    ofByte? byte = some signal ↔ byte = signal.byte := by
  constructor
  · intro h
    have := List.find?_some h
    exact (beq_iff_eq.mp this).symm
  · rintro rfl
    exact ofByte?_byte signal

end Control

/-- The byte that starts a block of 128 bytes. -/
def shortMarker : UInt8 := 0x01

/-- The byte that starts a block of 1024 bytes. -/
def longMarker : UInt8 := 0x02

/-- The byte that fills up the last block of a text file: the end-of-file mark of old text
files. -/
def textPad : UInt8 := 0x1A

end BlockTransfer

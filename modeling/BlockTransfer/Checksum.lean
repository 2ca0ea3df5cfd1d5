import BlockTransfer.Bytes

/-!
# Checksums

The block checks of the serial transfer protocols and their relatives: arithmetic and
longitudinal sums, and cyclic redundancy checks of 8 and 16 bits. A cyclic check is given by the
effect of one bit on its register, that of one byte, and a fold over the message; `ccittFrom`
exposes the register so that a message can be checked piece by piece.

`Checksum.Kind` names the checks, and `Kind.over` applies one to an inclusive range of a buffer.
-/

namespace BlockTransfer.Checksum

/-! ## Most significant bit first -/

/-- One bit of a cyclic check that shifts to the left: the bit that falls out at the top decides
whether the polynomial is added. -/
def shiftLeftBit (polynomial register : UInt16) : UInt16 :=
  if register &&& 0x8000 ≠ 0 then (register <<< 1) ^^^ polynomial else register <<< 1

/-- One message byte of the CCITT check: added to the upper half of the register, then eight
bits are shifted out. -/
def ccittByte (register : UInt16) (byte : UInt8) : UInt16 :=
  Nat.repeat (shiftLeftBit 0x1021) 8 (register ^^^ (byte.toUInt16 <<< 8))

/-- The CCITT check of `data`, carried on from `register`. -/
def ccittFrom (register : UInt16) (data : Bytes) : UInt16 :=
  data.foldl ccittByte register

/-- Checking a message in two pieces is checking it as a whole. -/
theorem ccittFrom_append (register : UInt16) (data more : Bytes) :
    ccittFrom register (data ++ more) = ccittFrom (ccittFrom register data) more :=
  List.foldl_append

/-- CRC-16 with polynomial `x^16 + x^12 + x^5 + 1`, most significant bit first, starting
from zero: the check of the XMODEM family. -/
def ccitt (data : Bytes) : UInt16 :=
  ccittFrom 0 data

/-! ## Least significant bit first -/

/-- One bit of a cyclic check that shifts to the right; `polynomial` is written in reflected
order. -/
def shiftRightBit (polynomial register : UInt16) : UInt16 :=
  if register &&& 1 ≠ 0 then (register >>> 1) ^^^ polynomial else register >>> 1

/-- One message byte of a reflected cyclic check. -/
def reflectedByte (polynomial register : UInt16) (byte : UInt8) : UInt16 :=
  Nat.repeat (shiftRightBit polynomial) 8 (register ^^^ byte.toUInt16)

/-- A reflected cyclic check of 16 bits, carried on from `register`. -/
def reflectedFrom (polynomial register : UInt16) (data : Bytes) : UInt16 :=
  data.foldl (reflectedByte polynomial) register

/-- CRC-16/ARC: polynomial 0x8005 reflected, starting from zero. -/
def arc (data : Bytes) : UInt16 :=
  reflectedFrom 0xA001 0 data

/-- CRC-16/MODBUS: polynomial 0x8005 reflected, starting from all ones. -/
def modbus (data : Bytes) : UInt16 :=
  reflectedFrom 0xA001 0xFFFF data

/-- Exchanges the two halves of a 16-bit word. -/
def swapHalves (word : UInt16) : UInt16 :=
  (word <<< 8) ||| (word >>> 8)

/-- CRC-16/DNP: polynomial 0x3D65 reflected, starting from zero, complemented, with the halves
exchanged so that the upper one is the first on the wire. -/
def dnp (data : Bytes) : UInt16 :=
  swapHalves (~~~ reflectedFrom 0xA6BC 0 data)

/-- The state of the 1-Wire check while a byte is fed to it: the register and the bits of the
byte that are still to come, the next one lowest. -/
structure OneWire where
  /-- The check register. -/
  register : UInt8
  /-- The rest of the byte. -/
  bits : UInt8

/-- One bit of the 1-Wire check: the lowest bits of register and byte together decide whether
the reflected polynomial is added. -/
def OneWire.step (state : OneWire) : OneWire :=
  let mixed := (state.register ^^^ state.bits) &&& 1
  let shifted := state.register >>> 1
  { register := if mixed ≠ 0 then shifted ^^^ 0x8C else shifted
    bits := state.bits >>> 1 }

/-- One message byte of the 1-Wire check. -/
def oneWireByte (register byte : UInt8) : UInt8 :=
  (Nat.repeat OneWire.step 8 ⟨register, byte⟩).register

/-- CRC-8 of Dallas/Maxim 1-Wire devices: polynomial `x^8 + x^5 + x^4 + 1` reflected, starting
from zero. -/
def oneWire (data : Bytes) : UInt8 :=
  data.foldl oneWireByte 0

/-! ## Ranges of a buffer -/

/-- The bytes at the positions `first` to `last`, both included. A range that ends right before
it starts is empty; one that starts later than that, or reaches past the buffer, does not
exist. -/
def range? (data : Bytes) (first last : Nat) : Option Bytes :=
  if first ≤ last + 1 ∧ last + 1 ≤ data.length then
    some ((data.take (last + 1)).drop first)
  else
    none

/-- The checks the library offers for a range of a buffer. -/
inductive Kind
  | sum
  | longitudinal
  | oneWire
  | arc
  | ccitt
  | dnp
  | modbus
  deriving DecidableEq, Repr

/-- The value of a check over a whole message, as a number. -/
def Kind.of (kind : Kind) (data : Bytes) : Nat :=
  match kind with
  | .sum => data.sumAll.toNat
  | .longitudinal => data.xorAll.toNat
  | .oneWire => (Checksum.oneWire data).toNat
  | .arc => (Checksum.arc data).toNat
  | .ccitt => (Checksum.ccitt data).toNat
  | .dnp => (Checksum.dnp data).toNat
  | .modbus => (Checksum.modbus data).toNat

/-- The value of a check over an inclusive range of a buffer, if the range exists. -/
def Kind.over (kind : Kind) (data : Bytes) (first last : Nat) : Option Nat :=
  (range? data first last).map kind.of

end BlockTransfer.Checksum

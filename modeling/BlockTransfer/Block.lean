import BlockTransfer.Checksum
import BlockTransfer.Control
import BlockTransfer.Error

/-!
# Blocks and frames

A block is a number and a payload of 128 or 1024 bytes. Its frame is what goes over the wire: a
marker for the size, the number, its complement, the payload, and a check over the payload of one
or two bytes. `Block.encode` writes a frame and `Block.decode` reads one back from the front of a
buffer, saying how many bytes are missing if the frame is not complete.
-/

namespace BlockTransfer

/-! ## Sizes -/

/-- The two payload sizes. -/
inductive BlockSize
  /-- 128 bytes. -/
  | short
  /-- 1024 bytes. -/
  | long
  deriving DecidableEq, Repr

namespace BlockSize

/-- The payload length in bytes. -/
def length : BlockSize → Nat
  | .short => 128
  | .long => 1024

/-- The byte that announces the size. -/
def marker : BlockSize → UInt8
  | .short => shortMarker
  | .long => longMarker

/-- The size that a byte announces. -/
def ofMarker? (byte : UInt8) : Option BlockSize :=
  if byte = shortMarker then some .short
  else if byte = longMarker then some .long
  else none

/-- The smaller size that holds `n` bytes, or the larger one if none does. -/
def fitting (n : Nat) : BlockSize :=
  if n ≤ 128 then .short else .long

/-- Reading back the marker of a size gives the size. -/
@[simp]
theorem ofMarker?_marker (size : BlockSize) : ofMarker? size.marker = some size := by
  cases size <;> decide

/-- A byte announces the size whose marker it is, and no other. -/
theorem ofMarker?_eq_some_iff {byte : UInt8} {size : BlockSize} :
    ofMarker? byte = some size ↔ byte = size.marker := by
  constructor
  · intro h
    unfold ofMarker? at h
    split at h
    · rename_i hshort
      cases h
      exact hshort
    · split at h
      · rename_i hlong
        cases h
        exact hlong
      · cases h
  · rintro rfl
    exact ofMarker?_marker size

/-- The fitting size holds what the larger one holds. -/
theorem le_length_fitting {n : Nat} (h : n ≤ long.length) : n ≤ (fitting n).length := by
  unfold fitting
  split
  · assumption
  · exact h

end BlockSize

/-! ## Checks -/

/-- The check at the end of a frame. -/
inductive Trailer
  /-- The sum of the payload in one byte. -/
  | checksum
  /-- The CCITT cyclic check in two bytes. -/
  | crc
  deriving DecidableEq, Repr

namespace Trailer

/-- The length of the check in bytes. -/
def length : Trailer → Nat
  | .checksum => 1
  | .crc => 2

/-- The check over a payload. -/
def compute (trailer : Trailer) (payload : Bytes) : UInt16 :=
  match trailer with
  | .checksum => payload.sumAll.toUInt16
  | .crc => Checksum.ccitt payload

/-- The bytes of a check, the upper one first. -/
def write (trailer : Trailer) (value : UInt16) : Bytes :=
  match trailer with
  | .checksum => [value.toUInt8]
  | .crc => [(value >>> 8).toUInt8, value.toUInt8]

/-- The number that bytes denote, the uppermost first. -/
def read (bytes : Bytes) : UInt16 :=
  bytes.foldl (fun value byte => (value <<< 8) ||| byte.toUInt16) 0

/-- A written check has the length of its kind. -/
@[simp]
theorem length_write (trailer : Trailer) (value : UInt16) :
    (trailer.write value).length = trailer.length := by
  cases trailer <;> rfl

end Trailer

/-! ## Blocks -/

/-- A block of data. -/
structure Block where
  /-- The number of the block, which starts again at 0 after 255. -/
  number : UInt8
  /-- The size of the payload. -/
  size : BlockSize
  /-- The payload. -/
  payload : Bytes
  /-- The payload has that size. -/
  length_payload : payload.length = size.length
  deriving DecidableEq

namespace Block

/-- The block that holds `data`, filled up with `pad`. Data past the size has no place in
it. -/
def padded (number : UInt8) (data : Bytes) (size : BlockSize) (pad : UInt8) : Block where
  number := number
  size := size
  payload := data.take size.length ++ List.replicate (size.length - data.length) pad
  length_payload := by
    simp only [List.length_append, List.length_take, List.length_replicate]
    omega

/-- Data that does not fit into a block. -/
structure Oversized where
  /-- The length of the data. -/
  length : Nat
  /-- The size of the block. -/
  size : BlockSize
  deriving DecidableEq, Repr

/-- How oversized data is told to the user. -/
def Oversized.message (e : Oversized) : String :=
  "block data of " ++ Numeral.decimal e.length ++ " bytes exceeds " ++
    Numeral.decimal e.size.length ++ "-byte block"

/-- The block that holds `data`, filled up with `pad`, if the data fits. -/
def padded? (number : UInt8) (data : Bytes) (size : BlockSize) (pad : UInt8) :
    Except Oversized Block :=
  if data.length ≤ size.length then .ok (padded number data size pad)
  else .error ⟨data.length, size⟩

/-- The length of a frame with a payload of the given size. -/
def frameLength (size : BlockSize) (trailer : Trailer) : Nat :=
  3 + size.length + trailer.length

/-- The frame of a block. -/
def encode (block : Block) (trailer : Trailer) : Bytes :=
  block.size.marker :: block.number :: ~~~block.number ::
    (block.payload ++ trailer.write (trailer.compute block.payload))

/-- A frame has the length of its size and check. -/
@[simp]
theorem length_encode (block : Block) (trailer : Trailer) :
    (block.encode trailer).length = frameLength block.size trailer := by
  simp only [encode, frameLength, List.length_cons, List.length_append, block.length_payload,
    Trailer.length_write]
  omega

/-- Reads the block whose frame stands at the front of `data`. -/
def decode (data : Bytes) (trailer : Trailer) : Except FrameError Block :=
  match data with
  | [] => .error (.incomplete 1)
  | marker :: rest =>
    match BlockSize.ofMarker? marker with
    | none => .error (.invalidMarker marker)
    | some size =>
      -- Nothing else is looked at before the frame is complete.
      if data.length < frameLength size trailer then
        .error (.incomplete (frameLength size trailer - data.length))
      else
        match rest with
        | number :: complement :: body =>
          if number ≠ ~~~complement then .error (.sequenceComplement number complement)
          else
            let payload := body.take size.length
            let actual := Trailer.read ((body.drop size.length).take trailer.length)
            let expected := trailer.compute payload
            if actual ≠ expected then .error (.checksumMismatch expected actual)
            -- A complete frame has a whole payload, so this always holds.
            else if h : payload.length = size.length then .ok ⟨number, size, payload, h⟩
            else .error (.incomplete (size.length - payload.length))
        | _ => .error (.incomplete (frameLength size trailer - data.length))

end Block

end BlockTransfer

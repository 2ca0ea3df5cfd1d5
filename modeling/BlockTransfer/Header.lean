import BlockTransfer.Block
import BlockTransfer.Text.Blank
import BlockTransfer.Text.Utf8
import BlockTransfer.Time.Timestamp

/-!
# File headers

The block with number 0 that announces a file in a batch. Its payload is the name, a zero byte,
the length in decimal, the modification time in seconds and the mode in octal, separated by
spaces, and a zero byte; zeros fill it up. A field is written only if those before it are known.
A payload that starts with a zero byte ends the batch.
-/

namespace BlockTransfer

/-- What a batch tells about a file. -/
structure FileHeader where
  /-- The name, as it goes over the wire. -/
  name : String
  /-- The exact length in bytes. -/
  length : Option UInt64 := none
  /-- The time of the last modification. -/
  modified : Option Timestamp := none
  /-- The permission bits. -/
  mode : Option UInt32 := none
  deriving DecidableEq

namespace FileHeader

/-! ## Writing -/

/-- The longest beginning of a text whose characters take at most `room` bytes. -/
def fittingPrefix (room : Nat) : List Char → List Char
  | [] => []
  | c :: cs =>
    let n := (Utf8.encodeChar c).length
    if n ≤ room then c :: fittingPrefix (room - n) cs else []

/-- The beginning that is kept fits into the room. -/
theorem length_encodeChars_fittingPrefix_le (room : Nat) (cs : List Char) :
    (Utf8.encodeChars (fittingPrefix room cs)).length ≤ room := by
  induction cs generalizing room with
  | nil => exact Nat.zero_le _
  | cons c cs ih =>
    rw [fittingPrefix]
    split
    · have := ih (room - (Utf8.encodeChar c).length)
      simp only [Utf8.encodeChars, List.flatMap_cons, List.length_append] at this ⊢
      omega
    · exact Nat.zero_le _

/-- The room for name and fields in the largest block, beside the two zero bytes. -/
def room : Nat := BlockSize.long.length - 2

/-- The fields after the name. -/
def info (header : FileHeader) : String :=
  match header.length with
  | none => ""
  | some length =>
    Numeral.decimal length.toNat ++
      match header.modified with
      | none => ""
      | some modified =>
        " " ++ Numeral.octal modified.seconds.toNat ++
          match header.mode with
          | none => ""
          | some mode => " " ++ Numeral.octal mode.toNat

/-- The name as far as it fits into a block. -/
def wireName (header : FileHeader) : Bytes :=
  Utf8.encodeChars (fittingPrefix room header.name.toList)

/-- The bytes of the header, without the zeros that fill up the block. The fields are left out
if they do not fit after a long name. -/
def wireBytes (header : FileHeader) : Bytes :=
  let name := header.wireName
  let info := Utf8.encode header.info
  name ++ 0 :: ((if name.length + info.length ≤ room then info else []) ++ [0])

/-- A header always fits into a block. -/
theorem length_wireBytes_le (header : FileHeader) :
    header.wireBytes.length ≤ BlockSize.long.length := by
  have hname : header.wireName.length ≤ room := length_encodeChars_fittingPrefix_le _ _
  have hroom : room + 2 = BlockSize.long.length := rfl
  simp only [wireBytes, List.length_append, List.length_cons, List.length_nil]
  split
  · omega
  · simp only [List.length_nil]
    omega

/-- The block that announces the file. -/
def toBlock (header : FileHeader) : Block :=
  let data := header.wireBytes
  Block.padded 0 data (BlockSize.fitting data.length) 0

/-- The block that ends a batch. -/
def endOfBatch : Block :=
  Block.padded 0 [] .short 0

/-! ## Reading -/

/-- Reads a number of 64 bits from a field. -/
def readField (base : Nat) (field : HeaderField) (word : List Char) : Except HeaderError Nat :=
  match Numeral.read base UInt64.size word with
  | .ok n => .ok n
  | .error _ => .error (.invalidField field (String.ofList word))

/-- Reads a field if it is there. -/
def readField? (base : Nat) (field : HeaderField) (word : Option (List Char)) :
    Except HeaderError (Option Nat) :=
  match word with
  | none => .ok none
  | some word => (readField base field word).map some

/-- The time that a number in a header stands for: seconds as a signed word of 64 bits, where
zero means that the time is not known. -/
def timeOf? (n : Nat) : Option Timestamp :=
  -- The upper half of the range stands for times before 1970.
  let seconds : Int := if n < UInt64.size / 2 then n else (n : Int) - UInt64.size
  if seconds = 0 then none else Timestamp.ofSeconds? seconds

/-- Reads a mode, which has 32 bits. -/
def modeOf (n : Nat) : Except HeaderError UInt32 :=
  if n < UInt32.size then .ok (UInt32.ofNat n) else .error (.invalidField .mode (Numeral.octal n))

/-- Reads the fields after the name. -/
def parseInfo (name : String) (words : List (List Char)) : Except HeaderError FileHeader := do
  let length ← readField? 10 .length words[0]?
  let modified ← readField? 8 .modified words[1]?
  let mode ← readField? 8 .mode words[2]?
  let mode ← mode.mapM modeOf
  return {
    name
    length := length.map UInt64.ofNat
    modified := modified.bind timeOf?
    mode }

/-- Reads the payload of a block with number 0: the header of a file, or `none` for the end of
the batch. -/
def parse (payload : Bytes) : Except HeaderError (Option FileHeader) :=
  match payload with
  | [] => .ok none
  | first :: _ =>
    if first = 0 then .ok none
    else
      let name := payload.takeWhile (· ≠ 0)
      match payload.dropWhile (· ≠ 0) with
      | [] => .error .missingTerminator
      | _ :: rest =>
        match Utf8.decode? name with
        | none => .error .invalidName
        | some name =>
          -- Only the name has to be well-formed; a damaged field fails as a number.
          let info := Utf8.decodeLossy (rest.takeWhile (· ≠ 0))
          (parseInfo (String.ofList name) (Text.words info)).map some

end FileHeader

end BlockTransfer

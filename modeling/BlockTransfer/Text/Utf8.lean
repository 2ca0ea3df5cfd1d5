import BlockTransfer.Bytes

/-!
# UTF-8

Writing characters as bytes, and reading bytes as characters one at a time. A decoder remembers
how many continuation bytes are owed and which range the next one must lie in, so that overlong
forms, surrogates and values past the last code point are refused at the first byte that rules
them out. An ill-formed sequence gives one mark per maximal well-formed beginning: `decode?`
refuses a text with such a mark, `decodeLossy` writes the replacement character for it.
-/

namespace BlockTransfer.Utf8

/-! ## Writing -/

/-- The bytes of one character. -/
def encodeChar (c : Char) : Bytes :=
  let n := c.toNat
  if n < 0x80 then
    [UInt8.ofNat n]
  else if n < 0x800 then
    [UInt8.ofNat (0xC0 + n / 64), UInt8.ofNat (0x80 + n % 64)]
  else if n < 0x10000 then
    [UInt8.ofNat (0xE0 + n / 4096), UInt8.ofNat (0x80 + n / 64 % 64), UInt8.ofNat (0x80 + n % 64)]
  else
    [UInt8.ofNat (0xF0 + n / 262144), UInt8.ofNat (0x80 + n / 4096 % 64),
      UInt8.ofNat (0x80 + n / 64 % 64), UInt8.ofNat (0x80 + n % 64)]

/-- A character takes between one and four bytes. -/
theorem length_encodeChar_mem (c : Char) :
    1 ≤ (encodeChar c).length ∧ (encodeChar c).length ≤ 4 := by
  unfold encodeChar
  dsimp only
  split
  · simp
  · split
    · simp
    · split <;> simp

/-- The bytes of a list of characters. -/
def encodeChars (cs : List Char) : Bytes :=
  cs.flatMap encodeChar

/-- The bytes of a text. -/
def encode (text : String) : Bytes :=
  encodeChars text.toList

/-! ## Reading -/

/-- A character of which some bytes have been read. -/
structure Partial where
  /-- The number of continuation bytes still owed, at least one. -/
  owed : Nat
  /-- The least value the next byte may have. -/
  low : Nat
  /-- The greatest value the next byte may have. -/
  high : Nat
  /-- The bits of the code point read so far. -/
  value : Nat

/-- What the first byte of a character says. -/
inductive Lead
  /-- It is a character by itself. -/
  | single (c : Char)
  /-- More bytes follow. -/
  | opens (p : Partial)
  /-- No character starts like this. -/
  | invalid

/-- Classifies a byte that stands between characters. -/
def lead (b : Nat) : Lead :=
  if b < 0x80 then .single (Char.ofNat b)
  -- Continuation bytes start nothing, and 0xC0 and 0xC1 only overlong forms.
  else if b < 0xC2 then .invalid
  else if b < 0xE0 then .opens ⟨1, 0x80, 0xBF, b - 0xC0⟩
  -- A lower second byte would give an overlong form.
  else if b = 0xE0 then .opens ⟨2, 0xA0, 0xBF, 0⟩
  -- A higher second byte would give a surrogate.
  else if b = 0xED then .opens ⟨2, 0x80, 0x9F, 0xD⟩
  else if b < 0xF0 then .opens ⟨2, 0x80, 0xBF, b - 0xE0⟩
  else if b = 0xF0 then .opens ⟨3, 0x90, 0xBF, 0⟩
  else if b < 0xF4 then .opens ⟨3, 0x80, 0xBF, b - 0xF0⟩
  -- A higher second byte would lead past the last code point.
  else if b = 0xF4 then .opens ⟨3, 0x80, 0x8F, 4⟩
  else .invalid

/-- A decoder in the middle of its work: the character being read, if any, and what has been
read, latest first, with `none` for an ill-formed sequence. -/
structure Decoder where
  /-- The character being read. -/
  current : Option Partial
  /-- What has been read. -/
  done : List (Option Char)

/-- Takes a byte that stands between characters. -/
def Decoder.start (done : List (Option Char)) (b : Nat) : Decoder :=
  match lead b with
  | .single c => ⟨none, some c :: done⟩
  | .opens p => ⟨some p, done⟩
  | .invalid => ⟨none, none :: done⟩

/-- Takes one byte. A byte that cannot continue the character being read ends it as ill-formed
and is looked at again from between characters. -/
def Decoder.step (d : Decoder) (byte : UInt8) : Decoder :=
  let b := byte.toNat
  match d.current with
  | none => Decoder.start d.done b
  | some p =>
    if p.low ≤ b ∧ b ≤ p.high then
      let value := p.value * 64 + (b - 0x80)
      if p.owed = 1 then ⟨none, some (Char.ofNat value) :: d.done⟩
      else ⟨some ⟨p.owed - 1, 0x80, 0xBF, value⟩, d.done⟩
    else
      Decoder.start (none :: d.done) b

/-- All that was read, in order; a character cut off by the end is ill-formed. -/
def Decoder.finish (d : Decoder) : List (Option Char) :=
  match d.current with
  | none => d.done.reverse
  | some _ => (none :: d.done).reverse

/-- The characters that bytes stand for, with `none` for each ill-formed sequence. -/
def scalars (bytes : Bytes) : List (Option Char) :=
  (bytes.foldl Decoder.step ⟨none, []⟩).finish

/-- The characters of well-formed bytes; `none` if any sequence is ill-formed. -/
def decode? (bytes : Bytes) : Option (List Char) :=
  (scalars bytes).mapM id

/-- The characters of any bytes, with U+FFFD for each ill-formed sequence. -/
def decodeLossy (bytes : Bytes) : List Char :=
  (scalars bytes).map (·.getD '\uFFFD')

end BlockTransfer.Utf8

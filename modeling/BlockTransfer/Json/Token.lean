import BlockTransfer.Text.Numeral

/-!
# JSON tokens

The lexical grammar of JSON, read one character at a time. A token keeps what the readers of
settings can tell apart: the contents of a string, if its escapes denote a text, and the value of
a number, if it is written as a plain natural number.
-/

namespace BlockTransfer.Json

/-- A part of a string: a character, or one half of a surrogate pair given by an escape. -/
inductive Piece
  | char (c : Char)
  | half (unit : Nat)

/-- Whether a UTF-16 unit is the first half of a surrogate pair. -/
def isHighHalf (unit : Nat) : Bool :=
  0xD800 ≤ unit && unit ≤ 0xDBFF

/-- Whether a UTF-16 unit is the second half of a surrogate pair. -/
def isLowHalf (unit : Nat) : Bool :=
  0xDC00 ≤ unit && unit ≤ 0xDFFF

/-- The code point of a surrogate pair. -/
def joinHalves (high low : Nat) : Char :=
  Char.ofNat (0x10000 + (high - 0xD800) * 0x400 + (low - 0xDC00))

/-- The piece that an escape with a UTF-16 unit stands for. -/
def Piece.ofUnit (unit : Nat) : Piece :=
  if isHighHalf unit || isLowHalf unit then .half unit else .char (Char.ofNat unit)

/-- The characters of a string given latest piece first; a half without its partner denotes no
text. -/
def Piece.join? (latestFirst : List Piece) : Option (List Char) :=
  go [] latestFirst
where
  /-- Puts pieces in front of the characters already joined. -/
  go (done : List Char) : List Piece → Option (List Char)
    | [] => some done
    | .char c :: rest => go (c :: done) rest
    -- The latest piece comes first, so the second half stands before the first.
    | .half low :: .half high :: rest =>
      if isHighHalf high && isLowHalf low then go (joinHalves high low :: done) rest else none
    | .half _ :: _ => none

/-- A token. -/
inductive Token
  | openObject
  | closeObject
  | openArray
  | closeArray
  | colon
  | comma
  /-- A string, with its contents if they are a text. -/
  | text (contents : Option (List Char))
  /-- A number, with its value if it is written with digits only. -/
  | number (plain : Option Nat)
  /-- `true` or `false`. -/
  | truth (value : Bool)
  | null
  deriving DecidableEq

/-- How far the reading of a number has come. -/
inductive NumberPart
  /-- After the minus sign. -/
  | sign
  /-- After an initial zero. -/
  | zero
  /-- Among the digits before the point. -/
  | whole
  /-- After the point. -/
  | point
  /-- Among the digits after the point. -/
  | fraction
  /-- After the letter of the exponent. -/
  | exponentMark
  /-- After the sign of the exponent. -/
  | exponentSign
  /-- Among the digits of the exponent. -/
  | exponent
  deriving DecidableEq

/-- Whether a number may end here. -/
def NumberPart.complete : NumberPart → Bool
  | .zero | .whole | .fraction | .exponent => true
  | .sign | .point | .exponentMark | .exponentSign => false

/-- The part that a further character of the same number belongs to. -/
def NumberPart.step? : NumberPart → Char → Option NumberPart
  | .sign, c => if c = '0' then some .zero else if c.isDigit then some .whole else none
  | .zero, c => afterWhole c
  | .whole, c => if c.isDigit then some .whole else afterWhole c
  | .point, c => if c.isDigit then some .fraction else none
  | .fraction, c =>
    if c.isDigit then some .fraction
    else if c = 'e' ∨ c = 'E' then some .exponentMark else none
  | .exponentMark, c =>
    if c.isDigit then some .exponent
    else if c = '+' ∨ c = '-' then some .exponentSign else none
  | .exponentSign, c => if c.isDigit then some .exponent else none
  | .exponent, c => if c.isDigit then some .exponent else none
where
  /-- What may follow the digits before the point. -/
  afterWhole (c : Char) : Option NumberPart :=
    if c = '.' then some .point
    else if c = 'e' ∨ c = 'E' then some .exponentMark else none

/-- Where a lexer stands. -/
inductive Mode
  /-- Between tokens. -/
  | idle
  /-- Inside a string, with its pieces, latest first. -/
  | text (pieces : List Piece)
  /-- After the backslash of an escape. -/
  | escape (pieces : List Piece)
  /-- Among the four digits of an escape that names a UTF-16 unit. -/
  | unit (pieces : List Piece) (digitsLeft : Nat) (value : Nat)
  /-- Inside a number; `plain` is its value while only digits have been read. -/
  | number (part : NumberPart) (plain : Option Nat)
  /-- Inside one of the words `true`, `false` and `null`, with the letters that must follow. -/
  | word (rest : List Char) (token : Token)

/-- A lexer: where it stands and the tokens read, latest first. -/
structure Lexer where
  /-- Where the lexer stands. -/
  mode : Mode
  /-- The complete tokens, latest first. -/
  done : List Token

/-- The value of a hexadecimal digit of either case. -/
def hexValue? (c : Char) : Option Nat :=
  if '0' ≤ c ∧ c ≤ '9' then some (c.toNat - '0'.toNat)
  else if 'a' ≤ c ∧ c ≤ 'f' then some (c.toNat - 'a'.toNat + 10)
  else if 'A' ≤ c ∧ c ≤ 'F' then some (c.toNat - 'A'.toNat + 10)
  else none

/-- Takes a character that stands between tokens. -/
def Lexer.begin? (done : List Token) (c : Char) : Option Lexer :=
  match c with
  | ' ' | '\t' | '\n' | '\r' => some ⟨.idle, done⟩
  | '{' => some ⟨.idle, .openObject :: done⟩
  | '}' => some ⟨.idle, .closeObject :: done⟩
  | '[' => some ⟨.idle, .openArray :: done⟩
  | ']' => some ⟨.idle, .closeArray :: done⟩
  | ':' => some ⟨.idle, .colon :: done⟩
  | ',' => some ⟨.idle, .comma :: done⟩
  | '"' => some ⟨.text [], done⟩
  | 't' => some ⟨.word ['r', 'u', 'e'] (.truth true), done⟩
  | 'f' => some ⟨.word ['a', 'l', 's', 'e'] (.truth false), done⟩
  | 'n' => some ⟨.word ['u', 'l', 'l'] .null, done⟩
  | '-' => some ⟨.number .sign none, done⟩
  | '0' => some ⟨.number .zero (some 0), done⟩
  | _ =>
    if c.isDigit then some ⟨.number .whole (some (c.toNat - '0'.toNat)), done⟩ else none

/-- The character that a one-letter escape stands for. -/
def escaped? : Char → Option Char
  | '"' => some '"'
  | '\\' => some '\\'
  | '/' => some '/'
  | 'b' => some '\x08'
  | 'f' => some '\x0c'
  | 'n' => some '\n'
  | 'r' => some '\r'
  | 't' => some '\t'
  | _ => none

/-- The value of a number after one more character of it. -/
def extendPlain (part : NumberPart) (plain : Option Nat) (c : Char) : Option Nat :=
  if part = .whole then plain.map (· * 10 + (c.toNat - '0'.toNat)) else none

/-- Takes one character; `none` if no token continues with it. -/
def Lexer.step? (lexer : Lexer) (c : Char) : Option Lexer :=
  match lexer.mode with
  | .idle => Lexer.begin? lexer.done c
  | .text pieces =>
    if c = '"' then some ⟨.idle, .text (Piece.join? pieces) :: lexer.done⟩
    else if c = '\\' then some ⟨.escape pieces, lexer.done⟩
    else if c.toNat < 0x20 then none
    else some ⟨.text (.char c :: pieces), lexer.done⟩
  | .escape pieces =>
    if c = 'u' then some ⟨.unit pieces 4 0, lexer.done⟩
    else (escaped? c).map fun e => ⟨.text (.char e :: pieces), lexer.done⟩
  | .unit pieces left value =>
    (hexValue? c).map fun v =>
      let value := value * 16 + v
      if left ≤ 1 then ⟨.text (Piece.ofUnit value :: pieces), lexer.done⟩
      else ⟨.unit pieces (left - 1) value, lexer.done⟩
  | .number part plain =>
    match part.step? c with
    | some next => some ⟨.number next (extendPlain next plain c), lexer.done⟩
    | none =>
      -- The character is not part of the number, and stands between tokens.
      if part.complete then Lexer.begin? (.number plain :: lexer.done) c else none
  | .word rest token =>
    match rest with
    | [] => Lexer.begin? (token :: lexer.done) c
    | expected :: rest =>
      if c ≠ expected then none
      else if rest.isEmpty then some ⟨.idle, token :: lexer.done⟩
      else some ⟨.word rest token, lexer.done⟩

/-- The tokens in order, if the text may end here. -/
def Lexer.finish? (lexer : Lexer) : Option (List Token) :=
  match lexer.mode with
  | .idle => some lexer.done.reverse
  | .number part plain =>
    if part.complete then some (Token.number plain :: lexer.done).reverse else none
  | _ => none

/-- The tokens of a text; `none` if it is not made of tokens and white space. -/
def tokens? (text : List Char) : Option (List Token) :=
  (text.foldlM Lexer.step? ⟨.idle, []⟩).bind Lexer.finish?

end BlockTransfer.Json

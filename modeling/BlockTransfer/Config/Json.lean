import BlockTransfer.Config
import BlockTransfer.Error
import BlockTransfer.Json.Quoted
import BlockTransfer.Json.Value
import BlockTransfer.Text.Utf8

/-!
# Settings as JSON

Settings files hold an object with any of the settings, or an array of the first few of them in
order; what is not given has its default value. Other keys of an object are ignored.
-/

namespace BlockTransfer.Config

/-- The settings as a JSON object, in order. -/
def toJson (config : Config) : String :=
  Json.object
    [Json.member "handshake_timeout_ms" (Numeral.decimal config.handshakeTimeout.toNat),
      Json.member "response_timeout_ms" (Numeral.decimal config.responseTimeout.toNat),
      Json.member "char_timeout_ms" (Numeral.decimal config.charTimeout.toNat),
      Json.member "purge_timeout_ms" (Numeral.decimal config.purgeTimeout.toNat),
      Json.member "max_retries" (Numeral.decimal config.maxRetries.toNat),
      Json.member "crc_handshake_attempts" (Numeral.decimal config.crcHandshakeAttempts.toNat)]

/-- The settings that the members of an object give. -/
def ofMembers? (members : Json.Members) : Option Config := do
  let base : Config := {}
  if Json.keysAreTexts members then
    return {
      handshakeTimeout :=
        ← Json.fieldOr base.handshakeTimeout Json.Value.word64 "handshake_timeout_ms" members
      responseTimeout :=
        ← Json.fieldOr base.responseTimeout Json.Value.word64 "response_timeout_ms" members
      charTimeout := ← Json.fieldOr base.charTimeout Json.Value.word64 "char_timeout_ms" members
      purgeTimeout :=
        ← Json.fieldOr base.purgeTimeout Json.Value.word64 "purge_timeout_ms" members
      maxRetries := ← Json.fieldOr base.maxRetries Json.Value.word32 "max_retries" members
      crcHandshakeAttempts :=
        ← Json.fieldOr base.crcHandshakeAttempts Json.Value.word32 "crc_handshake_attempts"
          members }
  else none

/-- The settings that the items of an array give, in order. -/
def ofItems? (items : List Json.Value) : Option Config := do
  let base : Config := {}
  if items.length ≤ 6 then
    return {
      handshakeTimeout := ← Json.itemOr base.handshakeTimeout Json.Value.word64 0 items
      responseTimeout := ← Json.itemOr base.responseTimeout Json.Value.word64 1 items
      charTimeout := ← Json.itemOr base.charTimeout Json.Value.word64 2 items
      purgeTimeout := ← Json.itemOr base.purgeTimeout Json.Value.word64 3 items
      maxRetries := ← Json.itemOr base.maxRetries Json.Value.word32 4 items
      crcHandshakeAttempts := ← Json.itemOr base.crcHandshakeAttempts Json.Value.word32 5 items }
  else none

/-- The settings that a JSON value gives. -/
def ofValue? : Json.Value → Option Config
  | .object members => ofMembers? members
  | .array items => ofItems? items
  | _ => none

/-- The ways in which loading settings fails. -/
inductive LoadError
  /-- The file could not be read. -/
  | io (error : IoError)
  /-- The text is not a settings document. -/
  | parse
  /-- A limit is zero. -/
  | invalidValue (limit : Limit)
  deriving DecidableEq, Repr

/-- How an error in loading settings is told to the user. -/
def LoadError.message : LoadError → String
  | .io error => "I/O error: " ++ error.text
  | .parse => "Parse error: not a settings document"
  | .invalidValue limit => limit.message

/-- The error that an error in loading settings is due to, if it is due to another. -/
def LoadError.cause? : LoadError → Option String
  | .io error => some error.text
  | .parse => some "not a settings document"
  | .invalidValue _ => none

/-- Reads settings from a JSON document and checks their limits. -/
def load (text : List Char) : Except LoadError Config :=
  match (Json.parse? text).bind ofValue? with
  | none => .error .parse
  | some config =>
    match config.firstZero? with
    | some limit => .error (.invalidValue limit)
    | none => .ok config

/-- Reads settings from the contents of a file, or from the error met in reading it. -/
def loadFile (contents : Except IoError Bytes) : Except LoadError Config :=
  match contents with
  | .error e => .error (.io e)
  | .ok bytes =>
    match Utf8.decode? bytes with
    | none => .error (.io .notUtf8)
    | some text => load text

end BlockTransfer.Config

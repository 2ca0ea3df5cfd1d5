import BlockTransfer.Header
import BlockTransfer.Json.Quoted
import BlockTransfer.Json.Value
import BlockTransfer.Time.Rfc3339

/-!
# File headers as JSON

A header is an object with name, length, modification time and mode, or an array of all four in
order. All but the name may be `null`, and in an object they may be missing.
-/

namespace BlockTransfer.FileHeader

/-- The written form of a value that may be missing. -/
def writeOptional {α : Type} (write : α → String) : Option α → String
  | none => "null"
  | some a => write a

/-- The header as a JSON object, in order. -/
def toJson (header : FileHeader) : String :=
  Json.object
    [Json.member "name" (Json.quote header.name),
      Json.member "length" (writeOptional (fun n => Numeral.decimal n.toNat) header.length),
      Json.member "modified"
        (writeOptional (fun t => Json.quote (Rfc3339.write t)) header.modified),
      Json.member "mode" (writeOptional (fun n => Numeral.decimal n.toNat) header.mode)]

/-- Reads a timestamp. -/
def timestampOf? : Json.Value → Option Timestamp
  | .text (some cs) => Rfc3339.read? cs
  | _ => none

/-- The header that a JSON value gives. -/
def ofValue? : Json.Value → Option FileHeader
  | .object members =>
    if Json.keysAreTexts members then do
      return {
        name := ← Json.field Json.Value.string "name" members
        length := ← Json.fieldOr none (Json.orNull Json.Value.word64) "length" members
        modified := ← Json.fieldOr none (Json.orNull timestampOf?) "modified" members
        mode := ← Json.fieldOr none (Json.orNull Json.Value.word32) "mode" members }
    else none
  | .array items =>
    if items.length = 4 then do
      return {
        name := ← Json.item Json.Value.string 0 items
        length := ← Json.item (Json.orNull Json.Value.word64) 1 items
        modified := ← Json.item (Json.orNull timestampOf?) 2 items
        mode := ← Json.item (Json.orNull Json.Value.word32) 3 items }
    else none
  | _ => none

/-- The header that a JSON document gives. -/
def ofJson? (text : List Char) : Option FileHeader :=
  (Json.parse? text).bind ofValue?

end BlockTransfer.FileHeader

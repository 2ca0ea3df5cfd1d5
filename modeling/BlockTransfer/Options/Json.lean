import BlockTransfer.Config.Json
import BlockTransfer.Options

/-!
# Options as JSON

Options are an object with protocol and variant, and optionally text mode and settings, or an
array of these in order.
-/

namespace BlockTransfer.Options

/-- The written form of `true` and `false`. -/
def writeTruth (b : Bool) : String :=
  if b then "true" else "false"

/-- The options as a JSON object, in order. -/
def toJson (options : Options) : String :=
  Json.object
    [Json.member "protocol" (Json.quote options.protocol.name),
      Json.member "variant" (Json.quote options.variant.name),
      Json.member "text_mode" (writeTruth options.textMode),
      Json.member "config" options.config.toJson]

/-- Reads the name of a protocol. -/
def protocolOf? (v : Json.Value) : Option Protocol :=
  v.choice.bind Protocol.ofName?

/-- Reads the name of a variant. -/
def variantOf? (v : Json.Value) : Option Variant :=
  v.choice.bind Variant.ofName?

/-- The options that a JSON value gives. -/
def ofValue? : Json.Value → Option Options
  | .object members =>
    if Json.keysAreTexts members then do
      return {
        protocol := ← Json.field protocolOf? "protocol" members
        variant := ← Json.field variantOf? "variant" members
        textMode := ← Json.fieldOr false Json.Value.bool "text_mode" members
        config := ← Json.fieldOr {} Config.ofValue? "config" members }
    else none
  | .array items =>
    if items.length ≤ 4 then do
      return {
        protocol := ← Json.item protocolOf? 0 items
        variant := ← Json.item variantOf? 1 items
        textMode := ← Json.itemOr false Json.Value.bool 2 items
        config := ← Json.itemOr {} Config.ofValue? 3 items }
    else none
  | _ => none

/-- The options that a JSON document gives. -/
def ofJson? (text : List Char) : Option Options :=
  (Json.parse? text).bind ofValue?

end BlockTransfer.Options

import BlockTransfer.Json.Token

/-!
# JSON values

A document as a tree, built from its tokens with an explicit stack of the arrays and objects that
are still open, so that any depth of nesting is read. Members keep their order, and repeated keys
are kept apart for the readers to refuse.
-/

namespace BlockTransfer.Json

/-- A JSON value. -/
inductive Value
  | null
  | truth (value : Bool)
  /-- A number, with its value if it is written with digits only. -/
  | number (plain : Option Nat)
  /-- A string, with its contents if they are a text. -/
  | text (contents : Option (List Char))
  | array (items : List Value)
  /-- An object: keys, which are strings, and values. -/
  | object (members : List (Option (List Char) × Value))

/-- The members of an object: keys, which are strings, and values. -/
abbrev Members := List (Option (List Char) × Value)

/-- An array or object that is still open; what it holds so far stands latest first. -/
inductive Container
  | array (items : List Value)
  /-- An object whose member with the given key is being read. -/
  | object (members : Members) (key : Option (List Char))

/-- What a parser has just seen and which containers are open around it, innermost first. -/
inductive Parser
  /-- A value must come. -/
  | value (around : List Container)
  /-- An array has just been opened. -/
  | opened (around : List Container)
  /-- A key must come, or the end of the object if it has no members yet. -/
  | key (members : Members) (around : List Container)
  /-- A key has been read and a colon must come. -/
  | colon (members : Members) (key : Option (List Char)) (around : List Container)
  /-- A value is complete. -/
  | complete (value : Value) (around : List Container)

/-- Takes a token that starts a value. -/
def Parser.begin? (around : List Container) : Token → Option Parser
  | .null => some (.complete .null around)
  | .truth b => some (.complete (.truth b) around)
  | .number n => some (.complete (.number n) around)
  | .text s => some (.complete (.text s) around)
  | .openArray => some (.opened around)
  | .openObject => some (.key [] around)
  | .closeArray | .closeObject | .colon | .comma => none

/-- Takes one token; `none` if no document continues with it. -/
def Parser.step? : Parser → Token → Option Parser
  | .value around, t => Parser.begin? around t
  | .opened around, .closeArray => some (.complete (.array []) around)
  | .opened around, t => Parser.begin? (.array [] :: around) t
  | .key members around, .text k => some (.colon members k around)
  -- After a comma another key has to come: only an object without members may end here.
  | .key [] around, .closeObject => some (.complete (.object []) around)
  | .key _ _, _ => none
  | .colon members k around, .colon => some (.value (.object members k :: around))
  | .colon _ _ _, _ => none
  | .complete v (.array items :: around), .comma => some (.value (.array (v :: items) :: around))
  | .complete v (.array items :: around), .closeArray =>
    some (.complete (.array (v :: items).reverse) around)
  | .complete v (.object members k :: around), .comma => some (.key ((k, v) :: members) around)
  | .complete v (.object members k :: around), .closeObject =>
    some (.complete (.object ((k, v) :: members).reverse) around)
  | .complete _ _, _ => none

/-- The value of a text that is one JSON document. -/
def parse? (text : List Char) : Option Value :=
  (tokens? text).bind fun ts =>
    match ts.foldlM Parser.step? (.value []) with
    | some (.complete v []) => some v
    | _ => none

/-! ## Reading fields -/

/-- The result of looking for a member of an object. -/
inductive Found
  | absent
  | once (value : Value)
  | repeated

/-- Looks for the members with a given key. -/
def find (key : String) (members : Members) : Found :=
  -- A key that is not a text equals none of the keys looked for.
  match members.filter (fun m => m.1 == some key.toList) with
  | [] => .absent
  | [m] => .once m.2
  | _ => .repeated

/-- Reads a member that may be absent, in which case it has the value `default`. -/
def fieldOr {α : Type} (default : α) (read : Value → Option α) (key : String)
    (members : Members) : Option α :=
  match find key members with
  | .absent => some default
  | .once v => read v
  | .repeated => none

/-- Reads a member that must be there. -/
def field {α : Type} (read : Value → Option α) (key : String) (members : Members) : Option α :=
  match find key members with
  | .once v => read v
  | .absent | .repeated => none

/-- Whether every key is a text. -/
def keysAreTexts (members : Members) : Bool :=
  members.all (·.1.isSome)

/-- Reads an item of an array that may be missing at the end, in which case it has the value
`default`. -/
def itemOr {α : Type} (default : α) (read : Value → Option α) (index : Nat)
    (items : List Value) : Option α :=
  match items[index]? with
  | some v => read v
  | none => some default

/-- Reads an item of an array that must be there. -/
def item {α : Type} (read : Value → Option α) (index : Nat) (items : List Value) : Option α :=
  items[index]?.bind read

/-- Reads a value that may also be `null`. -/
def orNull {α : Type} (read : Value → Option α) : Value → Option (Option α)
  | .null => some none
  | v => (read v).map some

/-- Reads a natural number below a bound. -/
def Value.natBelow (bound : Nat) : Value → Option Nat
  | .number (some n) => if n < bound then some n else none
  | _ => none

/-- Reads a number of 64 bits. -/
def Value.word64 (v : Value) : Option UInt64 :=
  (v.natBelow UInt64.size).map UInt64.ofNat

/-- Reads a number of 32 bits. -/
def Value.word32 (v : Value) : Option UInt32 :=
  (v.natBelow UInt32.size).map UInt32.ofNat

/-- Reads a text. -/
def Value.string : Value → Option String
  | .text (some cs) => some (String.ofList cs)
  | _ => none

/-- Reads `true` or `false`. -/
def Value.bool : Value → Option Bool
  | .truth b => some b
  | _ => none

/-- Reads the name of a choice: a string, or an object whose only member has that key and the
value `null`. -/
def Value.choice : Value → Option String
  | .text (some cs) => some (String.ofList cs)
  | .object [(some cs, .null)] => some (String.ofList cs)
  | _ => none

end BlockTransfer.Json

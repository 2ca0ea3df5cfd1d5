import BlockTransfer.Text.Numeral

/-!
# Quoted strings

How a text is written as a JSON string: quotation marks, backslashes and control characters are
escaped, everything else stands for itself.
-/

namespace BlockTransfer.Json

/-- The written form of one character of a string. -/
def quoteChar (c : Char) : List Char :=
  match c with
  | '"' => ['\\', '"']
  | '\\' => ['\\', '\\']
  | '\x08' => ['\\', 'b']
  | '\t' => ['\\', 't']
  | '\n' => ['\\', 'n']
  | '\x0c' => ['\\', 'f']
  | '\r' => ['\\', 'r']
  | c =>
    if c.toNat < 0x20 then
      ['\\', 'u', '0', '0', Nat.digitChar (c.toNat / 16), Nat.digitChar (c.toNat % 16)]
    else
      [c]

/-- A text as a JSON string, with its quotation marks. -/
def quote (text : String) : String :=
  String.ofList ('"' :: text.toList.flatMap quoteChar ++ ['"'])

/-- A member of an object whose value is already written. -/
def member (key written : String) : String :=
  quote key ++ ":" ++ written

/-- An object whose members are already written. -/
def object (members : List String) : String :=
  "\x7b" ++ ",".intercalate members ++ "\x7d"

end BlockTransfer.Json

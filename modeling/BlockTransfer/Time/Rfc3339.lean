import BlockTransfer.Text.Blank
import BlockTransfer.Text.Numeral
import BlockTransfer.Time.Timestamp

/-!
# RFC 3339 timestamps

Timestamps as text such as `2024-01-02T03:04:05.250Z`. Writing uses universal time, four digits
for the years 0 to 9999 and a sign before others, and as many fraction digits as keep the
nanoseconds: none, three, six or nine. Reading is lenient: white space between the parts, short
fields, any offset, a space or lower-case letters as separators.
-/

namespace BlockTransfer.Rfc3339

open Calendar

/-! ## Writing -/

/-- A year: four digits, or a sign and at least four digits. -/
def writeYear (year : Int) : String :=
  if 0 ≤ year ∧ year ≤ 9999 then Numeral.decimalPadded 4 year.toNat
  else (if year < 0 then "-" else "+") ++ Numeral.decimalPadded 4 year.natAbs

/-- The fraction of a second, in the fewest groups of three digits that keep it. -/
def writeFraction (nanos : Nat) : String :=
  if nanos = 0 then ""
  else if nanos % 1000000 = 0 then "." ++ Numeral.decimalPadded 3 (nanos / 1000000)
  else if nanos % 1000 = 0 then "." ++ Numeral.decimalPadded 6 (nanos / 1000)
  else "." ++ Numeral.decimalPadded 9 nanos

/-- The written form of a timestamp. -/
def write (t : Timestamp) : String :=
  let date := Date.ofDays (t.seconds / 86400)
  let second := (t.seconds % 86400).toNat
  -- A leap second is written as the second 60.
  let leap := 1000000000 ≤ t.nanos
  writeYear date.year ++ "-" ++ Numeral.decimalPadded 2 date.month ++ "-" ++
    Numeral.decimalPadded 2 date.day ++ "T" ++ Numeral.decimalPadded 2 (second / 3600) ++ ":" ++
    Numeral.decimalPadded 2 (second / 60 % 60) ++ ":" ++
    Numeral.decimalPadded 2 (second % 60 + if leap then 1 else 0) ++
    writeFraction (if leap then t.nanos - 1000000000 else t.nanos) ++ "Z"

/-! ## Reading -/

/-- The text without the white space in front. -/
def skipBlanks (cs : List Char) : List Char :=
  cs.dropWhile Text.isBlank

/-- The number that a list of digits denotes. -/
def valueOf (ds : List Char) : Nat :=
  ds.foldl (fun n d => n * 10 + (d.toNat - '0'.toNat)) 0

/-- Reads between one and `most` digits, as many as there are. -/
def digits? (most : Nat) (cs : List Char) : Option (List Char × List Char) :=
  let ds := (cs.take most).takeWhile Char.isDigit
  if ds.isEmpty then none else some (ds, cs.drop ds.length)

/-- Reads a field of one or two digits, after any white space. -/
def field? (cs : List Char) : Option (Nat × List Char) :=
  (digits? 2 (skipBlanks cs)).map fun (ds, rest) => (valueOf ds, rest)

/-- Reads one given character. -/
def expect? (c : Char) : List Char → Option (List Char)
  | [] => none
  | d :: rest => if d = c then some rest else none

/-- Reads a year, after any white space: up to four digits, or a sign and any number of
digits. -/
def year? (cs : List Char) : Option (Int × List Char) :=
  match skipBlanks cs with
  | '-' :: rest => (digits? rest.length rest).map fun (ds, rest) => (-(valueOf ds : Int), rest)
  | '+' :: rest => (digits? rest.length rest).map fun (ds, rest) => ((valueOf ds : Int), rest)
  | cs => (digits? 4 cs).map fun (ds, rest) => ((valueOf ds : Int), rest)

/-- Reads a date that exists. -/
def date? (cs : List Char) : Option (Date × List Char) := do
  let (year, cs) ← year? cs
  let cs ← expect? '-' (skipBlanks cs)
  let (month, cs) ← field? cs
  let cs ← expect? '-' (skipBlanks cs)
  let (day, cs) ← field? cs
  let date : Date := ⟨year, month, day⟩
  if -262143 ≤ year ∧ year ≤ 262142 ∧ date.isValid then some (date, cs) else none

/-- A time of day: seconds since midnight, and nanoseconds. -/
structure Clock where
  /-- Whole seconds since midnight. -/
  seconds : Nat
  /-- Nanoseconds, a thousand million or more in a leap second. -/
  nanos : Nat

/-- Reads a fraction of a second, if there is one, to nine digits; further digits are skipped. -/
def fraction? : List Char → Option (Nat × List Char)
  | '.' :: rest =>
    (digits? 9 rest).map fun (ds, rest) =>
      (valueOf ds * Nat.pow 10 (9 - ds.length), rest.dropWhile Char.isDigit)
  | cs => some (0, cs)

/-- Reads a time of day, in which the second may be a leap second. -/
def clock? (cs : List Char) : Option (Clock × List Char) := do
  let (hour, cs) ← field? cs
  let cs ← expect? ':' (skipBlanks cs)
  let (minute, cs) ← field? cs
  let cs ← expect? ':' (skipBlanks cs)
  let (second, cs) ← field? cs
  let (nanos, cs) ← fraction? cs
  if hour ≤ 23 ∧ minute ≤ 59 ∧ second ≤ 60 then
    -- The second 60 is kept as the second 59 with a further second of nanoseconds.
    if second = 60 then some (⟨hour * 3600 + minute * 60 + 59, nanos + 1000000000⟩, cs)
    else some (⟨hour * 3600 + minute * 60 + second, nanos⟩, cs)
  else none

/-- Reads two digits that stand side by side. -/
def twoDigits? : List Char → Option (Nat × List Char)
  | a :: b :: rest =>
    if a.isDigit ∧ b.isDigit then some (valueOf [a, b], rest) else none
  | _ => none

/-- Reads hours and minutes of an offset, with any colons and white space between them, as
seconds. -/
def hoursMinutes? (cs : List Char) : Option (Nat × List Char) := do
  let (hours, cs) ← twoDigits? cs
  let (minutes, cs) ← twoDigits? (cs.dropWhile fun c => c == ':' || Text.isBlank c)
  let seconds := hours * 3600 + minutes * 60
  if minutes ≤ 59 ∧ seconds < 86400 then some (seconds, cs) else none

/-- Reads an offset from universal time, in seconds to the east. -/
def offset? (cs : List Char) : Option (Int × List Char) :=
  match cs with
  | 'Z' :: rest | 'z' :: rest => some (0, rest)
  | '+' :: rest => (hoursMinutes? rest).map fun (n, rest) => ((n : Int), rest)
  | '-' :: rest | '\u2212' :: rest => (hoursMinutes? rest).map fun (n, rest) => (-(n : Int), rest)
  | u :: t :: c :: rest =>
    if u.toUpper = 'U' ∧ t.toUpper = 'T' ∧ c.toUpper = 'C' then some (0, rest) else none
  | _ => none

/-- Reads the mark between date and time. -/
def separator? : List Char → Option (List Char)
  | 'T' :: rest | 't' :: rest | ' ' :: rest => some rest
  | _ => none

/-- The timestamp that a text denotes. -/
def read? (cs : List Char) : Option Timestamp := do
  let (date, cs) ← date? cs
  let cs ← separator? cs
  let (clock, cs) ← clock? cs
  let (offset, cs) ← offset? (skipBlanks cs)
  if (skipBlanks cs).isEmpty then
    Timestamp.ofParts? (date.toDays * 86400 + clock.seconds - offset) clock.nanos
  else none

end BlockTransfer.Rfc3339

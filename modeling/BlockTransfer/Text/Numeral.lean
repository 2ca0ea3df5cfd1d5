/-!
# Numerals

Writing natural numbers in base 8, 10 and 16, and reading them back under a bound. Reading goes
from left to right and reports the first thing that is wrong.
-/

namespace BlockTransfer.Numeral

/-- The digits of a number in some base from 2 to 16, in lower case, without leading zeros. -/
def digits (base n : Nat) : List Char :=
  Nat.toDigits base n

/-- The decimal numeral of a number. -/
def decimal (n : Nat) : String :=
  String.ofList (digits 10 n)

/-- The octal numeral of a number. -/
def octal (n : Nat) : String :=
  String.ofList (digits 8 n)

/-- The decimal numeral of a number, with zeros in front up to `width` digits. -/
def decimalPadded (width n : Nat) : String :=
  let ds := digits 10 n
  String.ofList (List.replicate (width - ds.length) '0' ++ ds)

/-- The hexadecimal numeral of a number with the mark `0x`, and zeros in front up to `width`
digits. -/
def hex (width n : Nat) : String :=
  let ds := digits 16 n
  "0x" ++ String.ofList (List.replicate (width - ds.length) '0' ++ ds)

/-- The value of a digit in some base up to 10. -/
def digitValue? (base : Nat) (c : Char) : Option Nat :=
  let v := c.toNat - '0'.toNat
  if '0' ≤ c ∧ v < base then some v else none

/-- The ways in which a text fails to be a numeral below a bound. -/
inductive Fault
  /-- There is nothing to read. -/
  | empty
  /-- A character is not a digit, or there are no digits after the sign. -/
  | invalidDigit
  /-- The number is not below the bound. -/
  | tooLarge
  deriving DecidableEq, Repr

/-- How a fault is told to the user. -/
def Fault.message : Fault → String
  | .empty => "cannot parse integer from empty string"
  | .invalidDigit => "invalid digit found in string"
  | .tooLarge => "number too large to fit in target type"

/-- Adds one digit to the number read so far. -/
def push (base bound : Nat) (n : Nat) (c : Char) : Except Fault Nat :=
  match digitValue? base c with
  | none => .error .invalidDigit
  | some v => if n * base + v < bound then .ok (n * base + v) else .error .tooLarge

/-- Reads a numeral: an optional plus sign, then digits only, at least one, with a value below
`bound`. -/
def read (base bound : Nat) : List Char → Except Fault Nat
  | [] => .error .empty
  -- A sign alone is no numeral.
  | '+' :: [] => .error .invalidDigit
  | '+' :: cs => cs.foldlM (push base bound) 0
  | cs => cs.foldlM (push base bound) 0

end BlockTransfer.Numeral

/-!
# The civil calendar

Days counted from 1970-01-01 and dates of the proleptic Gregorian calendar, in both directions.
Years are counted from the first of March, so that the leap day is the last day of its year;
400 years make an era of 146097 days.
-/

namespace BlockTransfer.Calendar

/-- A date of the proleptic Gregorian calendar, with a year zero before the year one. -/
structure Date where
  /-- The year. -/
  year : Int
  /-- The month, from 1 to 12. -/
  month : Nat
  /-- The day of the month, from 1. -/
  day : Nat
  deriving DecidableEq, Repr

/-- Whether a year has a leap day. -/
def isLeap (year : Int) : Bool :=
  year % 4 == 0 && (year % 100 != 0 || year % 400 == 0)

/-- The number of days of a month. -/
def daysInMonth (year : Int) (month : Nat) : Nat :=
  if month = 2 then
    if isLeap year then 29 else 28
  else if month = 4 ∨ month = 6 ∨ month = 9 ∨ month = 11 then 30
  else 31

/-- Whether month and day exist in the year. -/
def Date.isValid (date : Date) : Bool :=
  1 ≤ date.month && date.month ≤ 12 && 1 ≤ date.day &&
    date.day ≤ daysInMonth date.year date.month

/-- The number of days from 1970-01-01 to a date. -/
def Date.toDays (date : Date) : Int :=
  -- January and February end the year that began with the March before.
  let year := if date.month ≤ 2 then date.year - 1 else date.year
  let era := year / 400
  let yearOfEra := year % 400
  let month : Int := if date.month ≤ 2 then date.month + 9 else date.month - 3
  -- From March on, every five months have 153 days.
  let dayOfYear := (153 * month + 2) / 5 + date.day - 1
  let dayOfEra := 365 * yearOfEra + yearOfEra / 4 - yearOfEra / 100 + dayOfYear
  -- From 0000-03-01 to 1970-01-01 there are 719468 days.
  era * 146097 + dayOfEra - 719468

/-- The date that many days after 1970-01-01. -/
def Date.ofDays (days : Int) : Date :=
  let shifted := days + 719468
  let era := shifted / 146097
  let dayOfEra := shifted % 146097
  -- The leap days before the day are taken out, so that all years have 365 days.
  let yearOfEra := (dayOfEra - dayOfEra / 1460 + dayOfEra / 36524 - dayOfEra / 146096) / 365
  let dayOfYear := dayOfEra - (365 * yearOfEra + yearOfEra / 4 - yearOfEra / 100)
  let month := (5 * dayOfYear + 2) / 153
  let day := dayOfYear - (153 * month + 2) / 5 + 1
  let year := era * 400 + yearOfEra
  { year := if month < 10 then year else year + 1
    month := (if month < 10 then month + 3 else month - 9).toNat
    day := day.toNat }

end BlockTransfer.Calendar

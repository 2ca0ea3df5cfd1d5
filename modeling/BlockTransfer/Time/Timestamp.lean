import BlockTransfer.Time.Calendar

/-!
# Timestamps

Moments in universal time, as whole seconds since 1970-01-01T00:00:00 and nanoseconds within the
second. A leap second is the second `59` with a thousand million nanoseconds or more. The range
is that of the years -262143 to 262142.
-/

namespace BlockTransfer

/-- The first second that has a timestamp. -/
def Timestamp.firstSecond : Int := -8334601228800

/-- The last second that has a timestamp. -/
def Timestamp.lastSecond : Int := 8210266876799

/-- Whether nanoseconds are allowed with a second: a full second of them, or two in a second
that may be followed by a leap second. -/
def Timestamp.nanosFit (seconds : Int) (nanos : Nat) : Prop :=
  nanos < 1000000000 ∨ (nanos < 2000000000 ∧ seconds % 60 = 59)

instance (seconds : Int) (nanos : Nat) : Decidable (Timestamp.nanosFit seconds nanos) := by
  unfold Timestamp.nanosFit
  infer_instance

/-- A moment in universal time. -/
structure Timestamp where
  /-- Whole seconds since 1970-01-01T00:00:00. -/
  seconds : Int
  /-- Nanoseconds since that second began. -/
  nanos : Nat
  /-- The second is in the supported range. -/
  seconds_mem : Timestamp.firstSecond ≤ seconds ∧ seconds ≤ Timestamp.lastSecond
  /-- The nanoseconds fit the second. -/
  nanos_fit : Timestamp.nanosFit seconds nanos
  deriving DecidableEq

namespace Timestamp

/-- The timestamp with the given seconds and nanoseconds, if there is one. -/
def ofParts? (seconds : Int) (nanos : Nat) : Option Timestamp :=
  if h : firstSecond ≤ seconds ∧ seconds ≤ lastSecond then
    if fit : nanosFit seconds nanos then some ⟨seconds, nanos, h, fit⟩ else none
  else none

/-- The timestamp of a whole second, if it is in range. -/
def ofSeconds? (seconds : Int) : Option Timestamp :=
  ofParts? seconds 0

end Timestamp

end BlockTransfer

import BlockTransfer.Text.Numeral

/-!
# Transfer settings

Timeouts and retry limits of a transfer session, their defaults, and the check that every limit
lets a transfer make progress.
-/

namespace BlockTransfer

/-- Timing and retry settings of a transfer session. Times are in milliseconds. -/
structure Config where
  /-- How long one attempt waits for the peer's handshake byte or first block. -/
  handshakeTimeout : UInt64 := 3000
  /-- How long one attempt waits for an answer or for the next block. -/
  responseTimeout : UInt64 := 3000
  /-- The longest pause between the bytes of one block. -/
  charTimeout : UInt64 := 1000
  /-- How long the line must be silent before a damaged block is refused. -/
  purgeTimeout : UInt64 := 100
  /-- The number of failures in a row at which a transfer is given up. -/
  maxRetries : UInt32 := 10
  /-- The number of unanswered requests for the cyclic check after which an XMODEM receiver
  settles for the checksum. -/
  crcHandshakeAttempts : UInt32 := 3
  deriving DecidableEq, Repr

/-- A setting that has to be positive. -/
inductive Config.Limit
  | handshakeTimeout
  | responseTimeout
  | charTimeout
  | maxRetries
  deriving DecidableEq, Repr

namespace Config

/-- The name under which a limit is written in settings files. -/
def Limit.name : Limit → String
  | .handshakeTimeout => "handshake_timeout_ms"
  | .responseTimeout => "response_timeout_ms"
  | .charTimeout => "char_timeout_ms"
  | .maxRetries => "max_retries"

/-- How a limit that is zero is told to the user. -/
def Limit.message (limit : Limit) : String :=
  "Invalid value for '" ++ limit.name ++ "': must be greater than zero"

/-- The value of a limit. -/
def limit (config : Config) : Limit → Nat
  | .handshakeTimeout => config.handshakeTimeout.toNat
  | .responseTimeout => config.responseTimeout.toNat
  | .charTimeout => config.charTimeout.toNat
  | .maxRetries => config.maxRetries.toNat

/-- The limits in the order in which they are checked. -/
def limits : List Limit :=
  [.handshakeTimeout, .responseTimeout, .charTimeout, .maxRetries]

/-- The first limit that is zero, if there is one. -/
def firstZero? (config : Config) : Option Limit :=
  limits.find? (config.limit · == 0)

/-- No limit is reported exactly when every limit is positive. -/
theorem firstZero?_eq_none_iff {config : Config} :
    config.firstZero? = none ↔ ∀ limit : Limit, 0 < config.limit limit := by
  simp only [firstZero?, List.find?_eq_none, beq_iff_eq]
  constructor
  · intro h limit
    have := h limit (by cases limit <;> decide)
    omega
  · intro h limit _
    have := h limit
    omega

end Config

end BlockTransfer

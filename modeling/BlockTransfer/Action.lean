import BlockTransfer.Header
import BlockTransfer.Session

/-!
# Actions

A party of a transfer is a machine that acts on its surroundings: it reads from and writes to a
channel, reports progress, and fetches or stores the contents of files. An `Action` is one such
act together with the state that each possible reply leads to; with every reply comes the moment
at which it was given. Acts that fail and acts that wait are the only ones whose outcome the
machine does not know beforehand, so a machine together with its surroundings, whatever they are,
has exactly one run: `Action.run`.
-/

namespace BlockTransfer

/-- What a party sees of the world beside replies: the time in milliseconds, and whether it has
been asked to stop. -/
structure Moment where
  /-- The time in milliseconds. -/
  now : Nat
  /-- Whether a stop is requested. -/
  abort : Bool
  deriving DecidableEq, Repr

/-- A file that was received completely. -/
structure ReceivedFile where
  /-- The header of the file, if it had one. -/
  header : Option FileHeader
  /-- The number of bytes delivered. -/
  bytes : Nat
  deriving DecidableEq

/-- One act of a machine with states `σ`. -/
inductive Action (σ : Type)
  /-- Nothing that can be seen from outside. -/
  | silent (next : σ)
  /-- Waits at most `timeout` for bytes from the channel; no bytes mean that none arrived. -/
  | read (timeout : Nat) (next : Except IoError Bytes → Moment → σ)
  /-- Writes bytes to the channel, which answers how many of them it took. -/
  | write (data : Bytes) (next : Except IoError Nat → Moment → σ)
  /-- Reports progress. -/
  | report (progress : Progress) (next : Moment → σ)
  /-- Fetches at most `most` bytes of the file with the given number; no bytes mean the end of
  the file. -/
  | fetch (file most : Nat) (next : Except IoError Bytes → Moment → σ)
  /-- Begins to store a file. -/
  | openFile (header : Option FileHeader) (next : Except IoError Unit → Moment → σ)
  /-- Stores more of the file. -/
  | store (data : Bytes) (next : Except IoError Unit → Moment → σ)
  /-- Ends the file. -/
  | closeFile (file : ReceivedFile) (next : Except IoError Unit → Moment → σ)
  /-- Nothing any more: the transfer is over. -/
  | stop (ending : Ending)

/-- Surroundings with states `ω`: how they reply to each act, and the moment that they show. -/
structure Surroundings (ω : Type) where
  /-- Waits at most so many milliseconds for bytes. -/
  read : ω → Nat → Except IoError Bytes × ω
  /-- Takes bytes from the party. -/
  write : ω → Bytes → Except IoError Nat × ω
  /-- Hears about progress. -/
  report : ω → Progress → ω
  /-- Gives the party at most so many bytes of a file. -/
  fetch : ω → Nat → Nat → Except IoError Bytes × ω
  /-- Begins to store a file. -/
  openFile : ω → Option FileHeader → Except IoError Unit × ω
  /-- Stores more of the file. -/
  store : ω → Bytes → Except IoError Unit × ω
  /-- Ends the file. -/
  closeFile : ω → ReceivedFile → Except IoError Unit × ω
  /-- The time, and whether a stop is requested. -/
  moment : ω → Moment

namespace Action

/-- The state after an act in the given surroundings, and the surroundings after it, or else the
ending of the transfer. -/
def step {σ ω : Type} (env : Surroundings ω) (w : ω) : Action σ → Except Ending (σ × ω)
  | .silent next => .ok (next, w)
  | .read timeout next =>
    let (reply, w) := env.read w timeout
    .ok (next reply (env.moment w), w)
  | .write data next =>
    let (reply, w) := env.write w data
    .ok (next reply (env.moment w), w)
  | .report progress next =>
    let w := env.report w progress
    .ok (next (env.moment w), w)
  | .fetch file most next =>
    let (reply, w) := env.fetch w file most
    .ok (next reply (env.moment w), w)
  | .openFile header next =>
    let (reply, w) := env.openFile w header
    .ok (next reply (env.moment w), w)
  | .store data next =>
    let (reply, w) := env.store w data
    .ok (next reply (env.moment w), w)
  | .closeFile file next =>
    let (reply, w) := env.closeFile w file
    .ok (next reply (env.moment w), w)
  | .stop ending => .error ending

/-- How a run comes to its end. -/
structure Run (σ ω : Type) where
  /-- The ending, or `none` if the number of acts was used up. -/
  ending : Option Ending
  /-- The last state of the party. -/
  state : σ
  /-- The last state of the surroundings. -/
  world : ω

/-- Runs a machine in its surroundings for at most `acts` acts. -/
def run {σ ω : Type} (env : Surroundings ω) (act : σ → Action σ) : Nat → σ → ω → Run σ ω
  | 0, s, w => ⟨none, s, w⟩
  | acts + 1, s, w =>
    match (act s).step env w with
    | .error ending => ⟨some ending, s, w⟩
    | .ok (s, w) => run env act acts s w

end Action

end BlockTransfer

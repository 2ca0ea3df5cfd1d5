import BlockTransfer.Error

/-!
# Memory pipes

Two ends joined by two queues: what is written to one end is read from the other, all of it at
once. An end whose partner is gone can still read what was written before.
-/

namespace BlockTransfer

/-- One end of a pipe. -/
inductive Pipe.Side
  | a
  | b
  deriving DecidableEq, Repr

/-- The other end. -/
def Pipe.Side.other : Pipe.Side → Pipe.Side
  | .a => .b
  | .b => .a

/-- What is known of one end. -/
structure Pipe.End where
  /-- The messages on their way to it, in order. -/
  inbox : List Bytes := []
  /-- Whether it still exists. -/
  alive : Bool := true
  deriving DecidableEq, Repr

/-- A pipe. -/
structure Pipe where
  /-- The first end. -/
  a : Pipe.End := {}
  /-- The second end. -/
  b : Pipe.End := {}
  deriving DecidableEq, Repr

namespace Pipe

/-- The error of using a pipe whose other end is gone. -/
def disconnected : IoError := ⟨.brokenPipe, "memory channel peer disconnected"⟩

/-- One end of a pipe. -/
def get (pipe : Pipe) : Side → End
  | .a => pipe.a
  | .b => pipe.b

/-- Replaces one end. -/
def set (pipe : Pipe) (side : Side) (e : End) : Pipe :=
  match side with
  | .a => { pipe with a := e }
  | .b => { pipe with b := e }

/-- Replaces the messages on their way to one end. -/
def setInbox (pipe : Pipe) (side : Side) (messages : List Bytes) : Pipe :=
  pipe.set side { pipe.get side with inbox := messages }

/-- Whether one end still exists. -/
def alive (pipe : Pipe) (side : Side) : Bool :=
  (pipe.get side).alive

/-- Writes a message to one end, which takes all of it; `none` if that end is gone. -/
def write? (pipe : Pipe) (side : Side) (data : Bytes) : Option (Except IoError Nat × Pipe) :=
  if pipe.alive side then
    if pipe.alive side.other then
      some (.ok data.length, pipe.setInbox side.other ((pipe.get side.other).inbox ++ [data]))
    else some (.error disconnected, pipe)
  else none

/-- Reads all that is on its way to one end, or nothing if there are no messages; `none` if that
end is gone. -/
def read? (pipe : Pipe) (side : Side) : Option (Except IoError (Option Bytes) × Pipe) :=
  if pipe.alive side then
    match (pipe.get side).inbox with
    | [] => some (if pipe.alive side.other then .ok none else .error disconnected, pipe)
    | messages => some (.ok (some messages.flatten), pipe.setInbox side [])
  else none

/-- Whether one end asks to stop, which it never does; `none` if that end is gone. -/
def abortRequested? (pipe : Pipe) (side : Side) : Option Bool :=
  if pipe.alive side then some false else none

/-- Does away with one end; `none` if it is gone already. -/
def drop? (pipe : Pipe) (side : Side) : Option Pipe :=
  if pipe.alive side then some (pipe.set side { pipe.get side with alive := false }) else none

end Pipe

end BlockTransfer

import BlockTransfer.Bytes

/-!
# Waiting on a line

The bytes that have arrived and not been used yet stand in a queue. A `Line.Task` says what is
wanted of the line: the next byte before a deadline, a number of bytes without a long pause, a
byte that is already there, or silence. `Task.look` says what to do next, given the queue: the
task is settled, or more must be read within some time. `Task.hear` takes in the result of that
reading. Time is counted in milliseconds.
-/

namespace BlockTransfer.Line

/-- What is wanted of a line. -/
inductive Task
  /-- The next byte, before a deadline. -/
  | byte (deadline : Nat)
  /-- So many bytes, with pauses shorter than `idle`; the deadline is that of the current
  pause. -/
  | exact (count idle deadline : Nat)
  /-- A byte that has arrived already. -/
  | poll
  /-- Silence for some time; what arrives before is thrown away. -/
  | quiet (period : Nat)
  deriving DecidableEq, Repr

/-- What a task comes to, and the bytes left in the queue. For a task that waits for bytes the
result is what it waited for, or `none` if that did not come in time; silence has no
result. -/
structure Settled where
  /-- The bytes that were waited for. -/
  result : Option Bytes
  /-- The bytes left in the queue. -/
  pending : Bytes
  deriving DecidableEq, Repr

/-- The next thing to do for a task. -/
inductive Look
  /-- Nothing: the task is settled. -/
  | settled (s : Settled)
  /-- Reading for at most `timeout`, with the given bytes left in the queue. -/
  | read (timeout : Nat) (pending : Bytes)
  deriving DecidableEq, Repr

/-- What a reading brought a task to. -/
inductive Heard
  /-- The task is settled. -/
  | settled (s : Settled)
  /-- The task goes on, with the given bytes in the queue. -/
  | waiting (task : Task) (pending : Bytes)
  deriving DecidableEq, Repr

namespace Task

/-- Looks for the result of a task among the bytes of the queue. -/
def look (pending : Bytes) (now : Nat) : Task → Look
  | .byte deadline =>
    match pending with
    | b :: rest => .settled ⟨some [b], rest⟩
    | [] => .read (deadline - now) []
  | .exact count _ deadline =>
    if count ≤ pending.length then .settled ⟨some (pending.take count), pending.drop count⟩
    else .read (deadline - now) pending
  | .poll =>
    match pending with
    | b :: rest => .settled ⟨some [b], rest⟩
    | [] => .read 0 []
  -- Whatever has arrived is thrown away.
  | .quiet period => .read period []

/-- Takes in what a reading brought, which is nothing if it was in vain. A pause starts again
with every arrival. Bytes of a sequence that comes to a halt are thrown away. -/
def hear (pending arrived : Bytes) (now : Nat) : Task → Heard
  | .byte deadline =>
    -- A reading may come back early with nothing, which settles nothing.
    if arrived.isEmpty ∧ deadline ≤ now then .settled ⟨none, pending⟩
    else .waiting (.byte deadline) (pending ++ arrived)
  | .exact count idle deadline =>
    if arrived.isEmpty then
      if deadline ≤ now then .settled ⟨none, []⟩
      else .waiting (.exact count idle deadline) pending
    else .waiting (.exact count idle (now + idle)) (pending ++ arrived)
  | .poll =>
    if arrived.isEmpty then .settled ⟨none, pending⟩
    else .waiting .poll (pending ++ arrived)
  | .quiet period =>
    if arrived.isEmpty then .settled ⟨none, pending⟩
    else .waiting (.quiet period) (pending ++ arrived)

end Task

end BlockTransfer.Line

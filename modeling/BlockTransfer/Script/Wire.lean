import BlockTransfer.Error

/-!
# Scripted channels

A channel whose other end follows a script, in virtual time. Chunks of bytes, or read errors,
queue up with the times at which they arrive; what is queued after a write is laid down in
advance, as are the writes that fail or fall short. Time moves only while the channel is read.
-/

namespace BlockTransfer.Script

/-- What arrives at one time: bytes, or a failure of the channel. -/
abbrev Content := Except IoError Bytes

/-- A part of a script: what arrives, and how long after the part before it. -/
structure Chunk where
  /-- The time since the part before it, or since it was queued if that is later. -/
  gap : Nat
  /-- What arrives. -/
  content : Content

/-- How a write goes wrong. -/
inductive WriteFault
  /-- Only so many bytes are taken. -/
  | accepts (count : Nat)
  /-- The write fails. -/
  | fails (error : IoError)

/-- The script of a channel. -/
structure Play where
  /-- What arrives unasked. -/
  initial : List Chunk := []
  /-- What arrives after the first writes, in order. -/
  replies : List (List Chunk) := []
  /-- What arrives after each later write. -/
  rest : List Chunk := []
  /-- The writes that go wrong, by number. -/
  faults : List (Nat × WriteFault) := []

/-- A scripted channel in use. -/
structure Wire where
  /-- The time. -/
  now : Nat := 0
  /-- What is on its way, with the times of arrival, in order. -/
  queue : List (Nat × Content) := []
  /-- The number of writes so far. -/
  writes : Nat := 0
  /-- What arrives after the next writes. -/
  replies : List (List Chunk)
  /-- What arrives after each later write. -/
  rest : List Chunk
  /-- The writes that go wrong, by number. -/
  faults : List (Nat × WriteFault)

namespace Wire

/-- Queues a chunk behind those that are on their way. -/
def enqueue (wire : Wire) (chunk : Chunk) : Wire :=
  -- Nothing overtakes what is on its way, and nothing arrives in the past.
  let last := (wire.queue.getLast?.map (·.1)).getD 0
  { wire with queue := wire.queue ++ [(max last wire.now + chunk.gap, chunk.content)] }

/-- A channel that begins to follow a script. -/
def ofPlay (play : Play) : Wire :=
  play.initial.foldl enqueue
    { replies := play.replies, rest := play.rest, faults := play.faults }

/-- Waits at most `timeout` for the next chunk. -/
def read (wire : Wire) (timeout : Nat) : Content × Wire :=
  match wire.queue with
  | (arrival, content) :: queue =>
    if arrival ≤ wire.now + timeout then
      (content, { wire with now := max wire.now arrival, queue })
    else (.ok [], { wire with now := wire.now + timeout })
  | [] => (.ok [], { wire with now := wire.now + timeout })

/-- Time does not run backwards while the channel is read. -/
theorem now_le_now_read (wire : Wire) (timeout : Nat) :
    wire.now ≤ (wire.read timeout).2.now := by
  unfold read
  split
  · split
    · exact Nat.le_max_left _ _
    · exact Nat.le_add_right _ _
  · exact Nat.le_add_right _ _

/-- No reading takes longer than its timeout. -/
theorem now_read_le (wire : Wire) (timeout : Nat) :
    (wire.read timeout).2.now ≤ wire.now + timeout := by
  unfold read
  split
  · split
    · exact Nat.max_le.mpr ⟨Nat.le_add_right _ _, by assumption⟩
    · exact Nat.le_refl _
  · exact Nat.le_refl _

/-- The fault of the next write, if it goes wrong. -/
def nextFault? (wire : Wire) : Option WriteFault :=
  wire.faults.lookup wire.writes

/-- Takes bytes, and queues what the script lays down to come after them. -/
def write (wire : Wire) (data : Bytes) : Except IoError Nat × Wire :=
  let reply := wire.replies.headD wire.rest
  let after := { wire with writes := wire.writes + 1, replies := wire.replies.tail }
  match wire.nextFault? with
  | some (.accepts count) => (.ok count, after)
  | some (.fails e) => (.error e, after)
  | none => (.ok data.length, reply.foldl enqueue after)

end Wire

end BlockTransfer.Script

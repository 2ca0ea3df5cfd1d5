import BlockTransfer.Serial

/-!
# Scripted serial devices

A serial device whose input is queued by hand and whose calls can be made to fail. It keeps a
record of the calls.
-/

namespace BlockTransfer.Script

/-- A kind of call. -/
inductive DeviceOp
  | bytesToRead
  | setTimeout
  | read
  | write
  | flush
  | clear
  deriving DecidableEq, Repr

/-- A call with its argument. -/
inductive DeviceEntry
  | bytesToRead
  | setTimeout (micros : Nat)
  | read (most : Nat)
  | write (data : Bytes)
  | flush
  | clear
  deriving DecidableEq, Repr

/-- The kind of a call. -/
def DeviceEntry.op : DeviceEntry → DeviceOp
  | .bytesToRead => .bytesToRead
  | .setTimeout _ => .setTimeout
  | .read _ => .read
  | .write _ => .write
  | .flush => .flush
  | .clear => .clear

/-- The state of a scripted device. -/
structure DeviceState where
  /-- The input, in order: bytes, or errors that come up once. -/
  queue : List (Except IoError Bytes) := []
  /-- The calls that fail. -/
  failing : List (DeviceOp × IoError) := []
  /-- The most bytes that a write takes, if it is limited. -/
  accepts : Option Nat := none
  /-- The calls made, latest first. -/
  record : List DeviceEntry := []

namespace DeviceState

/-- Records a call, and fails if such calls fail. -/
def call (entry : DeviceEntry) : DeviceCall DeviceState Unit := do
  modify fun s => { s with record := entry :: s.record }
  match (← get).failing.lookup entry.op with
  | some e => throw e
  | none => return ()

/-- The number of bytes in the queue. -/
def waiting (s : DeviceState) : Nat :=
  s.queue.foldl (fun count item => match item with
    | .ok data => count + data.length
    | .error _ => count) 0

/-- Takes at most so many bytes of the first item of the queue. -/
def take (most : Nat) : DeviceCall DeviceState Bytes := do
  let s ← get
  match s.queue with
  | [] => throw ⟨.timedOut, ""⟩
  | .error e :: queue =>
    set { s with queue }
    throw e
  | .ok data :: queue =>
    let left := data.drop most
    -- What does not fit into a reading is kept for the next one.
    set { s with queue := if left.isEmpty then queue else .ok left :: queue }
    return data.take most

/-- The scripted device. -/
def device : Device DeviceState where
  bytesToRead := do
    call .bytesToRead
    return (← get).waiting
  setTimeout micros := call (.setTimeout micros)
  read most := do
    call (.read most)
    take most
  write data := do
    call (.write data)
    match (← get).accepts with
    | none => return data.length
    | some n => return min n data.length
  flush := call .flush
  clear := do
    call .clear
    modify fun s => { s with queue := [] }

/-- Adds input at the end of the queue. -/
def feed (s : DeviceState) (item : Except IoError Bytes) : DeviceState :=
  { s with queue := s.queue ++ [item] }

/-- Makes a call, and gives its reply with the calls of the device that it came to. -/
def perform {α : Type} (s : DeviceState) (call : DeviceCall DeviceState α) :
    Except IoError α × List DeviceEntry × DeviceState :=
  let (reply, after) := call.run.run { s with record := [] }
  (reply, after.record.reverse, after)

end DeviceState

end BlockTransfer.Script

import BlockTransfer.Error

/-!
# Serial devices as channels

A serial device is driven by six calls, each of which may fail. `Serial.read` and `Serial.write`
make a channel of them: a reading that need not wait asks first whether there is anything to
read, a timeout is never shorter than a millisecond, and a reading that times out or is
interrupted brings nothing instead of failing. Times are in microseconds.
-/

namespace BlockTransfer

/-- What a call of a device with states `π` does: it changes the state, and it may fail. -/
abbrev DeviceCall (π α : Type) := ExceptT IoError (StateM π) α

/-- A serial device. -/
structure Device (π : Type) where
  /-- The number of bytes that have arrived. -/
  bytesToRead : DeviceCall π Nat
  /-- Sets how long a reading waits. -/
  setTimeout : Nat → DeviceCall π Unit
  /-- Reads at most so many bytes. -/
  read : Nat → DeviceCall π Bytes
  /-- Writes bytes, and says how many were taken. -/
  write : Bytes → DeviceCall π Nat
  /-- Waits until all is written. -/
  flush : DeviceCall π Unit
  /-- Drops what stands in the buffers. -/
  clear : DeviceCall π Unit

namespace Serial

/-- The speed of a device if none is given, in baud. -/
def defaultBaudRate : Nat := 115200

/-- The most bytes that one reading brings. -/
def readLimit : Nat := 1100

/-- The shortest timeout that a device is given. -/
def shortestTimeout : Nat := 1000

variable {π : Type}

/-- A call whose errors lose their kind. -/
def withoutKind {α : Type} (call : DeviceCall π α) : DeviceCall π α :=
  tryCatch call fun e => throw { e with kind := .other }

/-- Waits at most `timeout` for bytes. -/
def read (device : Device π) (timeout : Nat) : DeviceCall π (Option Bytes) := do
  -- A device may take a timeout of zero to mean that it waits for ever.
  if timeout = 0 then
    let waiting ← withoutKind device.bytesToRead
    if waiting = 0 then return none
  withoutKind (device.setTimeout (max timeout shortestTimeout))
  let data ← tryCatch (device.read readLimit) fun e =>
    match e.kind with
    | .timedOut | .interrupted => return []
    | _ => throw e
  return if data.isEmpty then none else some data

/-- Writes bytes, and says how many were taken. -/
def write (device : Device π) (data : Bytes) : DeviceCall π Nat := do
  let taken ← device.write data
  device.flush
  return taken

/-- Drops what stands in the device's buffers. -/
def clearBuffers (device : Device π) : DeviceCall π Unit :=
  withoutKind device.clear

/-- The error of opening a device. -/
def openError (fault : OpenFault) : TransferError :=
  .channel fault.deviceError

end Serial

end BlockTransfer

import BlockTransfer.CommandLine

/-!
# The transfer tool

Reads the settings files and tries the devices that the arguments name, runs the command line, and
prints its output.
-/

namespace BlockTransfer

/-- The number of a fault, which some calls report with its sign changed. -/
def faultNumber (code : UInt32) : Nat :=
  min code.toNat (UInt32.size - code.toNat)

/-- The fault that an error of the system stands for. -/
def faultOf? : IO.Error → Option OpenFault
  | .noFileOrDirectory .. => some .notFound
  | .permissionDenied .. => some .permissionDenied
  | .inappropriateType _ code _ =>
    if faultNumber code = OpenFault.notADirectory.number then some .notADirectory
    else some .isADirectory
  | .invalidArgument _ code _ =>
    if faultNumber code = OpenFault.nameTooLong.number then some .nameTooLong else none
  | _ => none

/-- Reads a file. -/
def readSettings (path : String) : IO (Except IoError Bytes) := do
  try
    let contents ← IO.FS.readBinFile path
    return .ok contents.toList
  catch e =>
    match faultOf? e with
    | some fault => return .error fault.fileError
    | none => return .error ⟨.other, toString e⟩

/-- Tries to open a device. No terminal line is driven from here, so whatever can be opened counts
as something else. -/
def tryDevice (path : String) : IO OpenFault := do
  try
    let _ ← IO.FS.Handle.mk path .readWrite
    return .notATerminal
  catch e =>
    return (faultOf? e).getD .notFound

end BlockTransfer

/-- Runs the tool. -/
def main (args : List String) : IO UInt32 := do
  let settings ← (BlockTransfer.CommandLine.values .config args).mapM fun path => do
    return (path, ← BlockTransfer.readSettings path)
  let names := ({} : BlockTransfer.CommandLine.Request).device ::
    BlockTransfer.CommandLine.values .device args
  let devices ← names.mapM fun path => do
    return (path, ← BlockTransfer.tryDevice path)
  let output := BlockTransfer.CommandLine.run
    { readFile := fun path =>
        (settings.lookup path).getD (.error BlockTransfer.OpenFault.notFound.fileError)
      openDevice := fun path => (devices.lookup path).getD .notFound } args
  IO.print output.stdout
  IO.eprint output.stderr
  return UInt32.ofNat output.code

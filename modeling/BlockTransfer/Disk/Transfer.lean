import BlockTransfer.Disk
import BlockTransfer.Options
import BlockTransfer.Sink

/-!
# Transfers from and to a disk

Files are sent under the last component of their path, with length, modification time and mode.
Files of a batch are received into a directory, each under the last component of the name that
the peer gives, so that nothing outside of the directory can be reached; a single file is
received at a given path.
-/

namespace BlockTransfer.Disk

/-! ## Sending -/

/-- The bit of a mode that marks a regular file. -/
def regularFileBit : Nat := 0o100000

/-- The bit of a mode that marks a device. -/
def deviceBit : Nat := 0o20000

/-- The bit of a mode that marks a directory. -/
def directoryBit : Nat := 0o40000

/-- The size that is told of a directory. -/
def directorySize : Nat := 4096

/-- A file to send. -/
structure Outgoing where
  /-- The header. -/
  header : FileHeader
  /-- The contents, or the error of reading them. -/
  contents : Except IoError Bytes

/-- The file that a path leads to, ready to be sent. Opening a directory succeeds, and only
reading it fails. -/
def outgoing (disk : Disk) (path : String) : Except TransferError Outgoing :=
  match disk.openNode path with
  | .error fault => .error (.file fault.fileError)
  | .ok node =>
    match Path.fileName? path with
    -- That the path leads somewhere is found out before its name is looked at.
    | none => .error (.invalidArgument (path ++ " has no usable file name"))
    | some name =>
      match node with
      | .directory =>
        .ok {
          header := {
            name
            length := some (UInt64.ofNat directorySize)
            modified := Timestamp.ofSeconds? 0
            mode := some (UInt32.ofNat (directoryBit + 0o755)) }
          contents := .error OpenFault.isADirectory.fileError }
      | .nullDevice =>
        .ok {
          header := {
            name
            length := some 0
            modified := Timestamp.ofSeconds? 0
            mode := some (UInt32.ofNat (deviceBit + 0o666)) }
          contents := .ok [] }
      | .file contents modified mode =>
        .ok {
          header := {
            name
            length := some (UInt64.ofNat contents.length)
            modified := Timestamp.ofSeconds? modified
            mode := some (UInt32.ofNat (regularFileBit + mode)) }
          contents := .ok contents }

/-- The files that paths lead to, ready to be sent, or the first error. -/
def outgoings (disk : Disk) (paths : List String) : Except TransferError (List Outgoing) :=
  paths.mapM disk.outgoing

/-! ## Receiving -/

/-- Where received files go. -/
inductive Target
  /-- All into one file. -/
  | file (path : String)
  /-- Into a directory, by name. -/
  | directory (path : String)

/-- The error of a name that leads to no file. -/
def unusableName (name : String) : IoError :=
  ⟨.other, "File name '" ++ name ++ "' has no usable final component"⟩

/-- The error of a file without a header for a directory. -/
def headerNeeded : IoError := ⟨.other, "directory target needs a file header"⟩

/-- The path at which a received file is stored. -/
def Target.pathFor (target : Target) (header : Option FileHeader) : Except IoError String :=
  match target, header with
  | .file path, _ => .ok path
  | .directory _, none => .error headerNeeded
  | .directory path, some header =>
    match Path.sanitize? header.name with
    | none => .error (unusableName header.name)
    | some name => .ok (Path.join path name)

/-- The place that is meant by the destination of a transfer: a file for a single file, and an
existing directory for a batch. -/
def target (disk : Disk) (protocol : Protocol) (destination : String) :
    Except TransferError Target :=
  match protocol with
  | .xmodem => .ok (.file destination)
  | .ymodem =>
    if disk.leadsToDirectory destination then .ok (.directory destination)
    else
      .error (.invalidArgument ("YMODEM destination " ++ destination ++ " is not a directory"))

/-- A disk that files are received on, and the location of the open file. -/
structure Receiving where
  /-- The disk. -/
  disk : Disk
  /-- The location of the open file, if there is one. -/
  current : Option Location := none

/-- The sink that stores received files at a target. -/
def sink (target : Target) : Sink Receiving where
  openFile state header :=
    match target.pathFor header with
    | .error e => (.error e, state)
    | .ok path =>
      match state.disk.create path with
      | .error fault => (.error fault.fileError, state)
      | .ok (place, disk) => (.ok (), { disk, current := some place })
  store state data :=
    match state.current with
    | none => (.error Sink.noFileOpen, state)
    | some place => (.ok (), { state with disk := state.disk.append place data })
  closeFile state _ := (.ok (), { state with current := none })

end BlockTransfer.Disk

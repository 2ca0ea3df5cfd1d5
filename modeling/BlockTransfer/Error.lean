import BlockTransfer.Bytes
import BlockTransfer.Text.Numeral

/-!
# Errors

The ways in which reading a frame or a header block, and a transfer as a whole, can fail. Each
error is a cause; `message` gives its wording.
-/

namespace BlockTransfer

/-! ## Input and output -/

/-- The kinds of input and output errors that somebody tells apart. Of these the transfer itself
looks only for `interrupted`, which it answers by trying again. -/
inductive IoKind
  | brokenPipe
  | timedOut
  | interrupted
  | unexpectedEof
  | other
  deriving DecidableEq, Repr

/-- An error of a channel, a file or a sink: its kind, and its description. -/
structure IoError where
  /-- The kind of the error. -/
  kind : IoKind
  /-- The description. -/
  text : String
  deriving DecidableEq, Repr

/-- A file that should be a text is not UTF-8. -/
def IoError.notUtf8 : IoError := ⟨.other, "stream did not contain valid UTF-8"⟩

/-! ## Opening files and devices -/

/-- The reasons for which a path cannot be opened as what is wanted. -/
inductive OpenFault
  /-- The path has a zero byte in it. -/
  | nulInPath
  /-- There is nothing of that name. -/
  | notFound
  /-- The permissions do not allow what is asked for. -/
  | permissionDenied
  /-- Something on the way is not a directory. -/
  | notADirectory
  /-- A directory stands where a file is wanted. -/
  | isADirectory
  /-- Something that is no terminal line stands where one is wanted. -/
  | notATerminal
  /-- A name or the path is longer than the file system allows. -/
  | nameTooLong
  deriving DecidableEq, Repr

namespace OpenFault

/-- What the operating system calls a fault. -/
def description : OpenFault → String
  | .nulInPath => "Invalid argument"
  | .notFound => "No such file or directory"
  | .permissionDenied => "Permission denied"
  | .notADirectory => "Not a directory"
  | .isADirectory => "Is a directory"
  | .notATerminal => "Not a typewriter"
  | .nameTooLong => "File name too long"

/-- The number by which the operating system knows a fault. -/
def number : OpenFault → Nat
  | .notFound => 2
  | .permissionDenied => 13
  | .notADirectory => 20
  | .isADirectory => 21
  | .nulInPath => 22
  | .notATerminal => 25
  | .nameTooLong => 36

/-- The error of a file that cannot be opened or read. A zero byte is noticed before the operating
system is asked. -/
def fileError (fault : OpenFault) : IoError :=
  match fault with
  | .nulInPath => ⟨.other, "file name contained an unexpected NUL byte"⟩
  | _ => ⟨.other, fault.description ++ " (os error " ++ Numeral.decimal fault.number ++ ")"⟩

/-- The error of a serial device that cannot be opened. -/
def deviceError (fault : OpenFault) : IoError :=
  ⟨.other, fault.description⟩

end OpenFault

/-! ## Frames -/

/-- The ways in which bytes fail to be a frame. -/
inductive FrameError
  /-- The first byte does not start a block. -/
  | invalidMarker (marker : UInt8)
  /-- The block number and its complement disagree. -/
  | sequenceComplement (number complement : UInt8)
  /-- The block check is not that of the payload. -/
  | checksumMismatch (expected actual : UInt16)
  /-- So many bytes are missing. -/
  | incomplete (needed : Nat)
  deriving DecidableEq, Repr

/-- How a frame error is told to the user. -/
def FrameError.message : FrameError → String
  | .invalidMarker marker => "Invalid block marker: " ++ Numeral.hex 2 marker.toNat
  | .sequenceComplement number complement =>
    "Block number " ++ Numeral.hex 2 number.toNat ++ " does not match complement " ++
      Numeral.hex 2 complement.toNat
  | .checksumMismatch expected actual =>
    "Block check mismatch: expected " ++ Numeral.hex 4 expected.toNat ++ ", got " ++
      Numeral.hex 4 actual.toNat
  | .incomplete needed => "Incomplete block: " ++ Numeral.decimal needed ++ " more bytes needed"

/-! ## Header blocks -/

/-- A field of a header block. -/
inductive HeaderField
  | length
  | modified
  | mode
  deriving DecidableEq, Repr

/-- The name of a header field in messages. -/
def HeaderField.name : HeaderField → String
  | .length => "length"
  | .modified => "modification time"
  | .mode => "mode"

/-- The ways in which a payload fails to be a file header. -/
inductive HeaderError
  /-- Nothing ends the name. -/
  | missingTerminator
  /-- The name is not UTF-8. -/
  | invalidName
  /-- A field is not a number in range. -/
  | invalidField (field : HeaderField) (value : String)
  deriving DecidableEq, Repr

/-- How a header error is told to the user. -/
def HeaderError.message : HeaderError → String
  | .missingTerminator => "File name is not NUL-terminated"
  | .invalidName => "File name is not valid UTF-8"
  | .invalidField field value => "Invalid " ++ field.name ++ " field: '" ++ value ++ "'"

/-! ## Transfers -/

/-- The point of the exchange at which a transfer gave up. -/
inductive Stage
  /-- The first handshake. -/
  | handshake
  /-- The header block. -/
  | header
  /-- A data block. -/
  | block (number : UInt8)
  /-- The end of a file. -/
  | endOfFile
  /-- The header block that ends a batch. -/
  | endOfBatch
  deriving DecidableEq, Repr

/-- The name of a stage in messages. -/
def Stage.text : Stage → String
  | .handshake => "handshake"
  | .header => "header block"
  | .block number => "block " ++ Numeral.decimal number.toNat
  | .endOfFile => "end of file"
  | .endOfBatch => "end of batch"

/-- The ways in which a transfer fails. -/
inductive TransferError
  /-- The peer did not answer as it should, that many times in a row. -/
  | timeout (stage : Stage) (attempts : Nat)
  /-- The peer cancelled the transfer. -/
  | peerCancelled
  /-- The channel failed. -/
  | channel (error : IoError)
  /-- The channel took only a part of what was written. -/
  | shortWrite (expected written : Nat)
  /-- A file could not be read or written. -/
  | file (error : IoError)
  /-- A block came that is neither the next one nor a repetition. -/
  | outOfSequence (expected received : UInt8)
  /-- A header block is not a file header. -/
  | invalidHeader (cause : HeaderError)
  /-- A block was damaged while streaming, where nothing is repeated. -/
  | streamCorrupted (cause : FrameError)
  /-- The transfer was asked for in a way that makes no sense. -/
  | invalidArgument (text : String)
  deriving DecidableEq, Repr

namespace TransferError

/-- How a transfer error is told to the user. -/
def message : TransferError → String
  | .timeout stage attempts =>
    "Timed out during " ++ stage.text ++ " after " ++ Numeral.decimal attempts ++ " attempts"
  | .peerCancelled => "Transfer cancelled by peer"
  | .channel error => "Channel I/O error: " ++ error.text
  | .shortWrite expected written =>
    "Short write on channel: " ++ Numeral.decimal written ++ " of " ++ Numeral.decimal expected ++
      " bytes"
  | .file error => "File I/O error: " ++ error.text
  | .outOfSequence expected received =>
    "Block out of sequence: expected " ++ Numeral.hex 2 expected.toNat ++ ", got " ++
      Numeral.hex 2 received.toNat
  | .invalidHeader cause => "Invalid file header: " ++ cause.message
  | .streamCorrupted cause => "Streaming transfer corrupted: " ++ cause.message
  | .invalidArgument text => "Invalid argument: " ++ text

/-- Whether the peer is told to give up as well: not if the channel itself failed, nor if the
peer has cancelled already, nor before anything was exchanged. -/
def notifiesPeer : TransferError → Bool
  | .peerCancelled | .channel _ | .shortWrite _ _ | .invalidArgument _ => false
  | .timeout _ _ | .file _ | .outOfSequence _ _ | .invalidHeader _ | .streamCorrupted _ => true

end TransferError

end BlockTransfer

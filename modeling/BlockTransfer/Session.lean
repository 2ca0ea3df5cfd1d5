import BlockTransfer.Error

/-!
# Transfer sessions

The bookkeeping of one transfer: its phase, the block number and the failures of the exchange in
hand, and the totals of the current file and of all files.
-/

namespace BlockTransfer

/-- The side of a transfer. -/
inductive Role
  | sender
  | receiver
  deriving DecidableEq, Repr

/-- The life of a session. -/
inductive SessionState
  /-- Nothing has been exchanged yet. -/
  | init
  /-- A handshake is awaited or offered. -/
  | awaitHandshake
  /-- Header and data blocks are exchanged. -/
  | exchangingBlocks
  /-- The end of a file is being settled. -/
  | awaitEotAck
  /-- The transfer succeeded. -/
  | done
  /-- The transfer was stopped from this side. -/
  | aborted
  /-- The transfer failed. -/
  | failed
  deriving DecidableEq, Repr

/-- What is reported after each block. -/
structure Progress where
  /-- The name of the file, if known. -/
  fileName : Option String
  /-- The declared length of the file, if known. -/
  fileLength : Option Nat
  /-- The number of blocks of the file so far. -/
  blocks : Nat
  /-- The number of bytes of the file so far. -/
  bytes : Nat
  deriving DecidableEq, Repr

/-- What is reported of a file when it is complete. -/
structure FileReport where
  /-- The name of the file, if known. -/
  name : Option String
  /-- The number of bytes delivered. -/
  bytes : Nat
  deriving DecidableEq, Repr

/-- What is reported of a transfer when it is complete. -/
structure Summary where
  /-- The files, in order. -/
  files : List FileReport
  /-- The number of data blocks of all files. -/
  blocks : Nat
  /-- The number of bytes of all files. -/
  bytes : Nat
  /-- The number of failed attempts of the whole session. -/
  retries : Nat
  /-- The duration in milliseconds. -/
  elapsed : Nat
  deriving DecidableEq, Repr

/-- How a transfer ends if it does not fail. -/
inductive Outcome
  /-- Every file went through. -/
  | completed (summary : Summary)
  /-- It was stopped from this side. -/
  | aborted
  deriving DecidableEq, Repr

/-- How a transfer ends. -/
abbrev Ending := Except TransferError Outcome

/-- It can be decided whether two results are the same. This way goes before any other. -/
instance (priority := high) decidableEqExcept {ε α : Type} [DecidableEq ε] [DecidableEq α] :
    DecidableEq (Except ε α)
  | .ok a, .ok b => decidable_of_iff (a = b) ⟨congrArg _, Except.ok.inj⟩
  | .error e, .error e' => decidable_of_iff (e = e') ⟨congrArg _, Except.error.inj⟩
  | .ok _, .error _ => isFalse nofun
  | .error _, .ok _ => isFalse nofun

/-- The state of a session. -/
structure Session where
  /-- The side. -/
  role : Role
  /-- The point of its life. -/
  state : SessionState := .init
  /-- The time at which it was made. -/
  started : Nat
  /-- The number of the next block to send or to expect. -/
  blockNumber : UInt8 := 1
  /-- The number of failures in a row in the exchange in hand. -/
  retries : Nat := 0
  /-- The number of failures so far. -/
  totalRetries : Nat := 0
  /-- The name of the current file, if known. -/
  fileName : Option String := none
  /-- The declared length of the current file, if known. -/
  fileLength : Option Nat := none
  /-- The number of blocks of the current file so far. -/
  fileBlocks : Nat := 0
  /-- The number of bytes of the current file so far. -/
  fileBytes : Nat := 0
  /-- The number of blocks so far. -/
  totalBlocks : Nat := 0
  /-- The number of bytes so far. -/
  totalBytes : Nat := 0
  /-- The files that are complete, latest first. -/
  filesDone : List FileReport := []
  deriving DecidableEq, Repr

namespace Session

/-- Passes to another point of the session's life. -/
def enter (s : Session) (state : SessionState) : Session :=
  { s with state }

/-- Counts a failed attempt. -/
def recordRetry (s : Session) : Session :=
  { s with retries := s.retries + 1, totalRetries := s.totalRetries + 1 }

/-- Starts the count of failures in a row again. -/
def resetRetries (s : Session) : Session :=
  { s with retries := 0 }

/-- Begins a file, whose blocks are numbered from 1. -/
def beginFile (s : Session) (name : Option String) (length : Option Nat) : Session :=
  { s with
    fileName := name
    fileLength := length
    fileBlocks := 0
    fileBytes := 0
    blockNumber := 1
    retries := 0 }

/-- Counts a block with `bytes` useful bytes. -/
def completeBlock (s : Session) (bytes : Nat) : Session :=
  { s with
    fileBlocks := s.fileBlocks + 1
    fileBytes := s.fileBytes + bytes
    totalBlocks := s.totalBlocks + 1
    totalBytes := s.totalBytes + bytes
    blockNumber := s.blockNumber + 1
    retries := 0 }

/-- Ends the current file with `bytes` bytes delivered, which replace those counted block by
block. -/
def finishFile (s : Session) (bytes : Nat) : Session :=
  { s with
    filesDone := ⟨s.fileName, bytes⟩ :: s.filesDone
    totalBytes := s.totalBytes - s.fileBytes + bytes
    fileName := none
    fileLength := none
    fileBytes := 0
    fileBlocks := 0 }

/-- The report after a block. -/
def progress (s : Session) : Progress where
  fileName := s.fileName
  fileLength := s.fileLength
  blocks := s.fileBlocks
  bytes := s.fileBytes

/-- The report at the end, at time `now`. -/
def summary (s : Session) (now : Nat) : Summary where
  files := s.filesDone.reverse
  blocks := s.totalBlocks
  bytes := s.totalBytes
  retries := s.totalRetries
  elapsed := now - s.started

end Session

end BlockTransfer

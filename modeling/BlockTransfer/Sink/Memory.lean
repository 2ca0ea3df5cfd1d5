import BlockTransfer.Sink

/-!
# Memory sinks

A sink that keeps the files it is given in memory, in the order in which they were closed.
Opening a file drops one that is still open.
-/

namespace BlockTransfer

/-- Received files in memory. -/
structure MemorySink where
  /-- The closed files with their contents, in order. -/
  files : List (ReceivedFile × Bytes) := []
  /-- The contents of the open file, if there is one. -/
  current : Option Bytes := none

namespace MemorySink

/-- Begins a file. -/
def openFile (sink : MemorySink) (_ : Option FileHeader) : Except IoError Unit × MemorySink :=
  (.ok (), { sink with current := some [] })

/-- Adds data to the open file. -/
def store (sink : MemorySink) (data : Bytes) : Except IoError Unit × MemorySink :=
  match sink.current with
  | none => (.error Sink.noFileOpen, sink)
  | some contents => (.ok (), { sink with current := some (contents ++ data) })

/-- Closes the open file. -/
def closeFile (sink : MemorySink) (file : ReceivedFile) : Except IoError Unit × MemorySink :=
  match sink.current with
  | none => (.error Sink.noFileOpen, sink)
  | some contents => (.ok (), { files := sink.files ++ [(file, contents)], current := none })

/-- The contents of the first file. -/
def firstData? (sink : MemorySink) : Option Bytes :=
  sink.files.head?.map (·.2)

/-- The sink that keeps files in memory. -/
def sink : Sink MemorySink where
  openFile := openFile
  store := store
  closeFile := closeFile

end MemorySink

end BlockTransfer

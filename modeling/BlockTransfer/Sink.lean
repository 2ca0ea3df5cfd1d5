import BlockTransfer.Action

/-!
# Sinks

Where received files go. A sink is told when a file begins, is given its data piece by piece, and
is told when the file ends; each of these calls may fail.
-/

namespace BlockTransfer

/-- A file sink with states `κ`. -/
structure Sink (κ : Type) where
  /-- Begins a file. -/
  openFile : κ → Option FileHeader → Except IoError Unit × κ
  /-- Adds data to the open file. -/
  store : κ → Bytes → Except IoError Unit × κ
  /-- Closes the open file. -/
  closeFile : κ → ReceivedFile → Except IoError Unit × κ

/-- The error of writing to or closing a file while none is open. -/
def Sink.noFileOpen : IoError := ⟨.other, "no file open"⟩

/-- A sink that takes nothing in. -/
def Sink.none : Sink Unit where
  openFile _ _ := (.ok (), ())
  store _ _ := (.ok (), ())
  closeFile _ _ := (.ok (), ())

end BlockTransfer

import BlockTransfer.Disk.Transfer
import BlockTransfer.Script.Rehearsal

/-!
# Rehearsals on a disk

Sending files from a disk and receiving files onto it over a scripted channel.
-/

namespace BlockTransfer.Script

/-- The end of a rehearsal. -/
structure Outcome (κ : Type) where
  /-- The ending, or `none` if the rehearsal was broken off. -/
  ending : Option Ending
  /-- The surroundings at the end. -/
  world : World κ

variable {κ : Type}

/-- Rehearses the sending of the files that paths lead to. Nothing is exchanged unless all of
them can be opened. -/
def rehearseDiskSend (setup : Setup κ) (options : Options) (play : Play) (disk : Disk)
    (paths : List String) (sink : κ) : Outcome κ :=
  match disk.outgoings paths with
  | .error e => ⟨some (.error e), World.new setup play [] sink⟩
  | .ok files =>
    let sources := files.map fun file => Source.ofContents file.contents
    let run := rehearseSend setup options (files.map (·.header))
      (World.new setup play sources sink)
    ⟨run.ending, run.world⟩

/-- Rehearses receiving at a destination on a disk. -/
def rehearseDiskReceive (setup : Sink Disk.Receiving → Setup Disk.Receiving) (options : Options)
    (play : Play) (disk : Disk) (destination : String) : Outcome Disk.Receiving :=
  match disk.target options.protocol destination with
  | .error e => ⟨some (.error e), World.new (setup (Disk.sink (.file ""))) play [] { disk }⟩
  | .ok target =>
    let setup := setup (Disk.sink target)
    let run := rehearseReceive setup options (World.new setup play [] { disk })
    ⟨run.ending, run.world⟩

end BlockTransfer.Script

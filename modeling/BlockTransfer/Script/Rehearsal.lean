import BlockTransfer.Receiver
import BlockTransfer.Script.Source
import BlockTransfer.Script.Wire
import BlockTransfer.Sender
import BlockTransfer.Sink

/-!
# Rehearsals

Surroundings made of a scripted channel, scripted files and a sink, with a request to stop that
is triggered at a chosen point. They keep a record of what the party did, in order.
-/

namespace BlockTransfer.Script

/-- A point at which a stop is requested. -/
inductive Trigger
  /-- Before anything happens. -/
  | start
  /-- When the write with the given number begins. -/
  | write (number : Nat)
  /-- When the report with the given number is made. -/
  | report (number : Nat)
  /-- When data is stored for that many times before. -/
  | store (number : Nat)
  /-- At the end of a reading, once it is so late. -/
  | time (millis : Nat)
  deriving DecidableEq, Repr

/-- A call of a sink. -/
inductive Call
  | openFile
  | store
  | closeFile
  deriving DecidableEq, Repr

/-- The name of a call in messages. -/
def Call.name : Call → String
  | .openFile => "open"
  | .store => "write"
  | .closeFile => "close"

/-- The error of a call that is made to fail. -/
def Call.error (call : Call) : IoError :=
  ⟨.other, "sink " ++ call.name ++ " failed"⟩

/-- An entry of the record. -/
inductive Entry
  /-- A write at a time, and whether it went wrong. -/
  | wrote (data : Bytes) (time : Nat) (fault : Bool)
  /-- A report at a time. -/
  | reported (progress : Progress) (time : Nat)
  /-- A file was begun. -/
  | opened (header : Option FileHeader)
  /-- So many bytes were stored. -/
  | stored (count : Nat)
  /-- A file was ended. -/
  | closed (file : ReceivedFile)
  /-- A call of the sink was made to fail. -/
  | sinkFault (call : Call)

/-- How a rehearsal is set up. -/
structure Setup (κ : Type) where
  /-- The point at which a stop is requested, if any. -/
  trigger : Option Trigger := none
  /-- Whether reports are listened to. -/
  listening : Bool := true
  /-- Whether the sink's calls are recorded. -/
  recordsSink : Bool := true
  /-- The calls of the sink that are made to fail, by number. -/
  sinkFaults : List (Call × Nat) := []
  /-- The sink. -/
  sink : Sink κ

/-- How often each call of a sink was made. -/
structure Calls where
  /-- The number of files begun. -/
  openFile : Nat := 0
  /-- The number of pieces of data stored. -/
  store : Nat := 0
  /-- The number of files ended. -/
  closeFile : Nat := 0
  deriving DecidableEq, Repr

/-- The number of calls of one kind. -/
def Calls.of (calls : Calls) : Call → Nat
  | .openFile => calls.openFile
  | .store => calls.store
  | .closeFile => calls.closeFile

/-- Counts one more call. -/
def Calls.count (calls : Calls) : Call → Calls
  | .openFile => { calls with openFile := calls.openFile + 1 }
  | .store => { calls with store := calls.store + 1 }
  | .closeFile => { calls with closeFile := calls.closeFile + 1 }

/-- The surroundings in a rehearsal. -/
structure World (κ : Type) where
  /-- The channel. -/
  wire : Wire
  /-- The files to send. -/
  sources : List Source := []
  /-- The sink. -/
  sink : κ
  /-- Whether a stop is requested. -/
  abort : Bool := false
  /-- The number of reports so far. -/
  reports : Nat := 0
  /-- The numbers of calls of the sink so far. -/
  calls : Calls := {}
  /-- The record, latest entry first. -/
  record : List Entry := []

namespace World

variable {κ : Type}

/-- What the party wrote, in order. -/
def written (w : World κ) : List Bytes :=
  w.record.reverse.filterMap fun entry =>
    match entry with
    | .wrote data _ _ => some data
    | _ => none

/-- Adds an entry to the record. -/
def note (w : World κ) (entry : Entry) : World κ :=
  { w with record := entry :: w.record }

/-- Requests a stop if a condition holds. -/
def abortIf (w : World κ) (condition : Bool) : World κ :=
  { w with abort := w.abort || condition }

/-- Reads from the channel. -/
def read (setup : Setup κ) (w : World κ) (timeout : Nat) : Except IoError Bytes × World κ :=
  let (content, wire) := w.wire.read timeout
  let late :=
    match setup.trigger with
    | some (.time millis) => decide (millis ≤ wire.now)
    | _ => false
  (content, { w with wire }.abortIf late)

/-- Writes to the channel. -/
def write (setup : Setup κ) (w : World κ) (data : Bytes) : Except IoError Nat × World κ :=
  let fault := w.wire.nextFault?.isSome
  -- The request comes before the write, so the party sees it with the reply.
  let w := (w.abortIf (setup.trigger = some (.write w.wire.writes))).note
    (.wrote data w.wire.now fault)
  let (reply, wire) := w.wire.write data
  (reply, { w with wire })

/-- Hears about progress. -/
def report (setup : Setup κ) (w : World κ) (progress : Progress) : World κ :=
  if setup.listening then
    let w := w.abortIf (setup.trigger = some (Trigger.report w.reports))
    { w with reports := w.reports + 1 }.note (.reported progress w.wire.now)
  else w

/-- Reads from a file. -/
def fetch (w : World κ) (file most : Nat) : Except IoError Bytes × World κ :=
  match w.sources[file]? with
  | none => (.ok [], w)
  | some source =>
    let (reply, source) := source.fetch most
    (reply, { w with sources := w.sources.set file source })

/-- Makes a call of the sink, unless it is made to fail. -/
def call (setup : Setup κ) (w : World κ) (call : Call) (entry : Entry)
    (run : κ → Except IoError Unit × κ) : Except IoError Unit × World κ :=
  let number := w.calls.of call
  let w := { w with calls := w.calls.count call }
  if setup.sinkFaults.contains (call, number) then
    (.error call.error, w.note (.sinkFault call))
  else
    let (reply, sink) := run w.sink
    let w := { w with sink }
    (reply, if setup.recordsSink then w.note entry else w)

/-- Stores data in the sink. -/
def store (setup : Setup κ) (w : World κ) (data : Bytes) : Except IoError Unit × World κ :=
  let w := w.abortIf (setup.trigger = some (.store w.calls.store))
  w.call setup .store (.stored data.length) (setup.sink.store · data)

/-- What the party sees. -/
def moment (w : World κ) : Moment where
  now := w.wire.now
  abort := w.abort

/-- How the surroundings of a rehearsal reply. -/
def surroundings (setup : Setup κ) : Surroundings (World κ) where
  read := read setup
  write := write setup
  report := report setup
  fetch := fetch
  openFile w header := w.call setup .openFile (.opened header) (setup.sink.openFile · header)
  store := store setup
  closeFile w file := w.call setup .closeFile (.closed file) (setup.sink.closeFile · file)
  moment := moment

/-- The surroundings at the start. -/
def new (setup : Setup κ) (play : Play) (sources : List Source) (sink : κ) : World κ where
  wire := Wire.ofPlay play
  sources := sources
  sink := sink
  abort := setup.trigger = some .start

end World

/-- The same surroundings, with a stop that is requested while a file is read, in the reading with
the given number. How many readings a file takes depends on what each of them brings, so this is no
trigger of a rehearsal. The state is that of the surroundings with the number of readings so far. -/
def stopInFetch {ω : Type} (env : Surroundings ω) (number : Nat) : Surroundings (ω × Nat) where
  read w timeout := (env.read w.1 timeout).map id (·, w.2)
  write w data := (env.write w.1 data).map id (·, w.2)
  report w progress := (env.report w.1 progress, w.2)
  fetch w file most := (env.fetch w.1 file most).map id (·, w.2 + 1)
  openFile w header := (env.openFile w.1 header).map id (·, w.2)
  store w data := (env.store w.1 data).map id (·, w.2)
  closeFile w file := (env.closeFile w.1 file).map id (·, w.2)
  moment w :=
    let moment := env.moment w.1
    { moment with abort := moment.abort || decide (number < w.2) }

/-- The number of acts after which a rehearsal is broken off: more than any peer that does not
repeat itself for ever needs. -/
def actLimit : Nat := 1000000000

variable {κ : Type}

/-- Rehearses the sending of files. -/
def rehearseSend (setup : Setup κ) (options : Options) (files : List FileHeader) (w : World κ) :
    Action.Run Sender (World κ) :=
  Action.run (World.surroundings setup) Sender.act actLimit (Sender.new options files w.moment) w

/-- Rehearses the receiving of files. -/
def rehearseReceive (setup : Setup κ) (options : Options) (w : World κ) :
    Action.Run Receiver (World κ) :=
  Action.run (World.surroundings setup) Receiver.act actLimit (Receiver.new options w.moment) w

end BlockTransfer.Script

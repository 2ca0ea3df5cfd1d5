import BlockTransfer.Party

/-!
# The receiver

The receiver asks for blocks with the signal of its variant until one comes, answers every block
unless they come in a stream, and hands the data on to be stored. A damaged block is refused once
the line is silent. A repeated block is acknowledged again and not stored. If the length of a
file is not known, its latest block is held back until it is clear whether it is the last one,
whose padding is not stored.
-/

namespace BlockTransfer

namespace Receiver

/-- What came over the line when a block was expected. -/
inductive Incoming
  | block (block : Block)
  | endOfFile
  | corrupt (error : FrameError)
  | silence
  deriving DecidableEq

/-- What is read of a frame that has been decoded. -/
def Incoming.ofDecoded : Except FrameError Block → Incoming
  | .ok read => .block read
  | .error e => .corrupt e

/-- What a block is expected for. -/
inductive Purpose
  /-- It answers the receiver's signal at the given stage. -/
  | solicited (stage : Stage)
  /-- It is the next block of the file. -/
  | data
  deriving DecidableEq, Repr

/-- The steps of the receiver. -/
inductive Step
  /-- Options are looked at. -/
  | start
  /-- Blocks are asked for, from the beginning. -/
  | solicit (stage : Stage)
  /-- One attempt at that begins, with the signal if `prompt` is set. -/
  | attempt (stage : Stage) (prompt : Bool)
  /-- The wait for a block begins. -/
  | expect (purpose : Purpose)
  /-- The first byte of a block is awaited. -/
  | listen (purpose : Purpose) (task : Line.Task)
  /-- More of a block is awaited; so many bytes are missing behind what has come of its frame. -/
  | collect (purpose : Purpose) (frame : Bytes) (needed : Nat) (task : Line.Task)
  /-- Something has come. -/
  | judge (purpose : Purpose) (incoming : Incoming)
  /-- The line is awaited to be silent before a block is refused. -/
  | purge (purpose : Purpose) (task : Line.Task)
  /-- The line is silent and the block is to be refused. -/
  | refuse (purpose : Purpose)
  /-- An attempt has failed. -/
  | missed (purpose : Purpose) (prompt : Bool)
  /-- The header of a file has been read. -/
  | announced (header : FileHeader)
  /-- The header has been acknowledged and the data of the file is to be asked for. -/
  | signal (header : FileHeader)
  /-- A file begins. -/
  | openFile (header : Option FileHeader) (first : Option Incoming)
  /-- The next block of the file is taken up. -/
  | nextBlock (first : Option Incoming)
  /-- Data is to be stored before the block with `useful` bytes of data is acknowledged. -/
  | store (data : Bytes) (useful : Nat)
  /-- The block with `useful` bytes of data is to be acknowledged. -/
  | accept (useful : Nat)
  /-- The block has been acknowledged. -/
  | counted (useful : Nat)
  /-- A repeated block has been acknowledged. -/
  | repeated (number : UInt8)
  /-- The end of the file has been acknowledged. -/
  | settle
  /-- What was held back to the end is to be stored. -/
  | storeLast (data : Bytes)
  /-- The file is to be closed. -/
  | closeFile
  /-- The batch has ended. -/
  | finish
  deriving DecidableEq

/-- What the receiver keeps beside the session. -/
structure Job where
  /-- The signal with which blocks are asked for. -/
  handshake : Control
  /-- The header of the current file, if it has one. -/
  header : Option FileHeader := none
  /-- The number of bytes of the current file that have been stored. -/
  delivered : Nat := 0
  /-- The payload of the latest block, if it is held back. -/
  held : Option Bytes := none
  /-- Whether an end mark has been refused to see if it comes again. -/
  endSeen : Bool := false
  deriving DecidableEq

/-- A block without the padding at its end. -/
def stripPadding (payload : Bytes) (pad : UInt8) : Bytes :=
  (payload.reverse.dropWhile (· = pad)).reverse

end Receiver

/-- A receiver. -/
abbrev Receiver := Party Receiver.Job Receiver.Step

namespace Receiver

/-- A receiver before its first step. -/
def new (options : Options) (moment : Moment) : Receiver :=
  Party.new .receiver options moment { handshake := options.variant.handshake } .start

/-- Looks at the options before anything is exchanged. -/
def start (s : Receiver) : Receiver :=
  match s.options.check with
  | some e => s.reject e
  | none =>
    match s.options.protocol with
    | .xmodem => s.goto (.solicit .handshake)
    | .ymodem => s.goto (.solicit .header)

/-- Writes a signal, then goes on with a step. -/
def say (s : Receiver) (signal : Control) (step : Step) : Action Receiver :=
  s.write [signal.byte] step

/-- The stage of a failed attempt. -/
def stage (s : Receiver) : Purpose → Stage
  | .solicited stage => stage
  | .data => .block s.session.blockNumber

/-- How long the first byte of a block is awaited. -/
def patience (s : Receiver) : Purpose → Nat
  | .solicited _ => s.options.config.handshakeTimeout.toNat
  | .data => s.options.config.responseTimeout.toNat

/-! ## Frames -/

/-- Decodes what has come of a frame. As long as bytes are missing of it, as many of them are
awaited, and then it is decoded again. -/
def collect (purpose : Purpose) (frame : Bytes) (s : Receiver) : Receiver :=
  match Block.decode frame s.trailer with
  | .error (.incomplete needed) =>
    let idle := s.options.config.charTimeout.toNat
    s.goto (.collect purpose frame needed (.exact needed idle (s.moment.now + idle)))
  | decoded => s.goto (.judge purpose (.ofDecoded decoded))

/-- Takes in what was heard where a block may begin. -/
def heardStart (purpose : Purpose) (heard : Option Bytes) (s : Receiver) : Receiver :=
  match heard with
  | some (byte :: _) =>
    if byte = Control.can.byte then s.fail .peerCancelled
    else if byte = Control.eot.byte then s.goto (.judge purpose .endOfFile)
    else if (BlockSize.ofMarker? byte).isNone then
      s.goto (.judge purpose (.corrupt (.invalidMarker byte)))
    else collect purpose [byte] s
  | _ => s.goto (.judge purpose .silence)

/-- Takes in the bytes that were missing of a frame. -/
def heardRest (purpose : Purpose) (frame : Bytes) (needed : Nat) (heard : Option Bytes)
    (s : Receiver) : Receiver :=
  match heard with
  | some rest => collect purpose (frame ++ rest) s
  -- What had come of the block was thrown away, so all of it is missing.
  | none => s.goto (.judge purpose (.corrupt (.incomplete needed)))

/-- Begins to wait for silence, after which the block is refused. -/
def purge (s : Receiver) (purpose : Purpose) : Receiver :=
  s.goto (.purge purpose (.quiet s.options.config.purgeTimeout.toNat))

/-! ## Asking for blocks -/

/-- Settles for the checksum when an XMODEM sender has left enough requests for the cyclic check
unanswered. -/
def fallBack (s : Receiver) : Receiver :=
  let attempts := s.options.config.crcHandshakeAttempts.toNat
  -- The request that has just gone unanswered is not among the retries yet.
  if s.options.protocol = .xmodem ∧ s.job.handshake = .crcRequest ∧ 0 < attempts ∧
      attempts ≤ s.session.retries + 1 then
    { s with job := { s.job with handshake := .nak }, trailer := .checksum }
  else s

/-- Reads a block as the header of a file or the end of the batch. -/
def readHeader (s : Receiver) (block : Block) : Action Receiver :=
  if block.number ≠ 0 then .silent (s.fail (.outOfSequence 0 block.number))
  else
    match FileHeader.parse block.payload with
    | .error e => .silent (s.fail (.invalidHeader e))
    -- An empty name stands for the end of the batch.
    | .ok none => say s .ack .finish
    | .ok (some header) => .silent (s.goto (.announced header))

/-- Does what follows from the answer to the receiver's signal. -/
def judgeSolicited (s : Receiver) (stage : Stage) : Incoming → Action Receiver
  | .block block =>
    let s := s.mapSession Session.resetRetries
    match s.options.protocol with
    | .xmodem => .silent (s.goto (.openFile none (some (.block block))))
    | .ymodem => readHeader s block
  | .endOfFile =>
    match s.options.protocol with
    | .xmodem =>
      .silent ((s.mapSession Session.resetRetries).goto (.openFile none (some .endOfFile)))
    -- The sender has not heard that the last file was complete.
    | .ymodem => say s .ack (.missed (.solicited stage) true)
  | .corrupt _ => .silent (purge s (.solicited stage))
  | .silence => .silent ((fallBack s).goto (.missed (.solicited stage) true))

/-! ## Files -/

/-- The length of the current file, if it was declared. -/
def declared (s : Receiver) : Option Nat :=
  (s.job.header.bind FileHeader.length).map UInt64.toNat

/-- Begins a file. -/
def begin (s : Receiver) (header : Option FileHeader) (first : Option Incoming) :
    Action Receiver :=
  let s := { s with
    job := { s.job with header, delivered := 0, held := none, endSeen := false } }
  let s := s.mapSession fun session =>
    (session.beginFile (header.map FileHeader.name) (declared s)).enter .exchangingBlocks
  .openFile header fun reply moment =>
    let s := { s with moment }
    match reply with
    | .error e => s.fail (.file e)
    | .ok () => s.goto (.nextBlock first)

/-- Stores data, then goes on with a step. -/
def keep (s : Receiver) (data : Bytes) (step : Step) : Action Receiver :=
  .store data fun reply moment =>
    let s := { s with moment }
    match reply with
    | .error e => s.fail (.file e)
    | .ok () =>
      { s with job := { s.job with delivered := s.job.delivered + data.length } }.goto step

/-- Takes the payload of the next block: stores as much of it as belongs to a file of declared
length, or else holds it back and stores the one before it. -/
def take (s : Receiver) (payload : Bytes) : Receiver :=
  match declared s with
  | some length =>
    -- What comes after the declared length is padding.
    let data := payload.take (length - s.job.delivered)
    s.goto (.store data data.length)
  | none =>
    let previous := s.job.held
    let s : Receiver := { s with job := { s.job with held := some payload } }
    match previous with
    -- The first block has none before it.
    | none => s.goto (.accept payload.length)
    | some previous => s.goto (.store previous payload.length)

/-- Does what follows from what came in the middle of a file. -/
def judgeData (s : Receiver) : Incoming → Action Receiver
  | .block block =>
    let expected := s.session.blockNumber
    if block.number = expected then .silent (take s block.payload)
    -- The block before has come again: the sender has missed its answer.
    else if block.number = expected - 1 ∧ ¬s.streaming then say s .ack (.repeated block.number)
    else .silent (s.fail (.outOfSequence expected block.number))
  | .endOfFile =>
    let s := s.mapSession (·.enter .awaitEotAck)
    -- A single end mark might be noise, so in a batch it has to come twice.
    if s.options.protocol = .ymodem ∧ ¬s.job.endSeen then
      say { s with job := { s.job with endSeen := true } } .nak (.nextBlock none)
    else say s .ack .settle
  | .corrupt e =>
    if s.streaming then .silent (s.fail (.streamCorrupted e)) else .silent (purge s .data)
  | .silence =>
    -- A sender in a stream does not listen to requests for a repetition.
    if s.streaming then .silent (s.fail (.timeout (stage s .data) 1))
    -- The signal that asks for the data may have been lost.
    else if s.options.protocol = .ymodem ∧ s.session.fileBlocks = 0 then
      say s s.job.handshake (.missed .data true)
    else say s .nak (.missed .data true)

/-- Stores what is left of the file once its end has been acknowledged. -/
def settle (s : Receiver) : Receiver :=
  match s.job.held with
  | none => s.goto .closeFile
  | some last => s.goto (.storeLast (stripPadding last s.options.pad))

/-- Closes the file, and asks for the next one of a batch. -/
def close (s : Receiver) : Action Receiver :=
  .closeFile ⟨s.job.header, s.job.delivered⟩ fun reply moment =>
    let s := { s with moment }
    match reply with
    | .error e => s.fail (.file e)
    | .ok () =>
      let s := s.mapSession (·.finishFile s.job.delivered)
      match s.options.protocol with
      | .xmodem => s.complete
      | .ymodem => s.goto (.solicit .header)

/-! ## Acts -/

/-- The act of the receiver at a step. -/
def step (s : Receiver) : Step → Action Receiver
  | .start => .silent (start s)
  | .solicit stage =>
    .silent ((s.mapSession fun session => (session.enter .awaitHandshake).resetRetries).goto
      (.attempt stage true))
  | .attempt stage prompt =>
    let next := Step.expect (.solicited stage)
    s.unlessAborted (if prompt then say s s.job.handshake next else .silent (s.goto next))
  | .expect purpose =>
    .silent (s.goto (.listen purpose (.byte (s.moment.now + patience s purpose))))
  | .listen purpose task => s.listen task (.listen purpose) (heardStart purpose)
  | .collect purpose frame needed task =>
    s.listen task (.collect purpose frame needed) (heardRest purpose frame needed)
  | .judge (.solicited stage) incoming => judgeSolicited s stage incoming
  | .judge .data incoming => judgeData s incoming
  | .purge purpose task => s.listen task (.purge purpose) fun _ s => s.goto (.refuse purpose)
  | .refuse purpose => say s .nak (.missed purpose false)
  | .missed purpose prompt =>
    match purpose with
    | .solicited stage => .silent (s.retry stage (.attempt stage prompt))
    | .data => .silent (s.retry (stage s .data) (.nextBlock none))
  | .announced header =>
    -- In a stream the signal for the data is answer enough.
    if s.streaming then say s s.job.handshake (.openFile (some header) none)
    else say s .ack (.signal header)
  | .signal header => say s s.job.handshake (.openFile (some header) none)
  | .openFile header first => begin s header first
  | .nextBlock first =>
    s.unlessAborted (.silent (s.goto
      (match first with
      | some incoming => .judge .data incoming
      | none => .expect .data)))
  | .store data useful => keep s data (.accept useful)
  | .accept useful =>
    if s.streaming then .silent (s.goto (.counted useful)) else say s .ack (.counted useful)
  | .counted useful => (s.mapSession (·.completeBlock useful)).report (.nextBlock none)
  | .repeated number =>
    -- After a repeated header the sender waits for the signal again.
    if number = 0 ∧ s.options.protocol = .ymodem then say s s.job.handshake (.nextBlock none)
    else .silent (s.goto (.nextBlock none))
  | .settle => .silent (settle s)
  | .storeLast data => keep s data .closeFile
  | .closeFile => close s
  | .finish => .silent s.complete

/-- The next act of the receiver. -/
def act (s : Receiver) : Action Receiver :=
  Party.act (step s) s

end Receiver

end BlockTransfer

import BlockTransfer.Party

/-!
# The sender

The sender waits for the receiver to ask for blocks, and the signal with which it asks decides
the block check and whether blocks are answered one by one. Each block, header and end mark is
repeated until it is acknowledged. In a stream nothing is answered, and the sender only listens
for the cancel signal between blocks. Bytes that mean nothing to the sender are noise.
-/

namespace BlockTransfer

namespace Sender

/-- What the sender waits to be asked for. -/
inductive Invitation
  /-- A file. -/
  | file
  /-- The data of a file whose header has been sent. -/
  | data
  /-- More files, of which there are none. -/
  | endOfBatch
  deriving DecidableEq, Repr

/-- The stage at which an invitation is awaited. -/
def Invitation.stage : Invitation → Stage
  | .file => .handshake
  | .data => .header
  | .endOfBatch => .endOfBatch

/-- What the sender sends until it is acknowledged. -/
inductive Item
  /-- The header of a file. -/
  | header
  /-- A block with a piece of the file. -/
  | block (piece : Bytes)
  /-- The end mark of a file. -/
  | endOfFile
  /-- The header that ends the batch. -/
  | endOfBatch
  deriving DecidableEq, Repr

/-- The steps of the sender. -/
inductive Step
  /-- Options and files are looked at. -/
  | start
  /-- The next file is taken up, or the batch is ended. -/
  | nextFile
  /-- A new wait for an invitation begins. -/
  | await (invitation : Invitation)
  /-- One attempt of that wait begins. -/
  | attempt (invitation : Invitation)
  /-- The receiver's signal is awaited. -/
  | listen (invitation : Invitation) (task : Line.Task)
  /-- The invitation has come. -/
  | invited (invitation : Invitation)
  /-- A header is sent into a stream. -/
  | streamHeader
  /-- An item is to be sent. If `spare` is set, the first refusal does not count. -/
  | offer (item : Item) (spare : Bool)
  /-- The item has just been sent. -/
  | sent (item : Item) (spare : Bool)
  /-- The answer to the item is awaited. -/
  | answer (item : Item) (spare : Bool) (task : Line.Task)
  /-- The item has been acknowledged. -/
  | acknowledged (item : Item)
  /-- The next piece of the file is to be fetched. -/
  | nextPiece
  /-- A piece is being fetched, and this much of it has come. -/
  | gather (piece : Bytes)
  /-- The piece has been fetched. -/
  | gathered (piece : Bytes)
  /-- A block has been sent into a stream, and a cancel signal is looked for. -/
  | drain (piece : Bytes)
  /-- A block is complete. -/
  | counted (piece : Bytes)

/-- What the sender keeps beside the session. -/
structure Job where
  /-- The headers of the files still to be sent, the current one first. -/
  files : List FileHeader
  /-- The number of files already sent. -/
  index : Nat := 0
  /-- The number of bytes of the current file already sent. -/
  sent : Nat := 0

end Sender

/-- A sender. -/
abbrev Sender := Party Sender.Job Sender.Step

namespace Sender

/-- A sender of files with the given headers, before its first step. -/
def new (options : Options) (files : List FileHeader) (moment : Moment) : Sender :=
  Party.new .sender options moment { files } .start

/-- The block with a piece of the file. A piece of at most 128 bytes goes into a short block. -/
def dataBlock (s : Sender) (piece : Bytes) : Block :=
  -- The tail of a file goes into a short block also among long ones.
  let size := if piece.length ≤ BlockSize.short.length then .short else s.options.variant.blockSize
  Block.padded s.session.blockNumber piece size s.options.pad

/-- The bytes of an item. -/
def frame (s : Sender) : Item → Bytes
  | .header =>
    match s.job.files with
    | [] => []
    | file :: _ => file.toBlock.encode s.trailer
  | .block piece => (dataBlock s piece).encode s.trailer
  | .endOfFile => [Control.eot.byte]
  | .endOfBatch => FileHeader.endOfBatch.encode s.trailer

/-- The stage at which an item is sent. -/
def stage (s : Sender) : Item → Stage
  | .header => .header
  | .block _ => .block s.session.blockNumber
  | .endOfFile => .endOfFile
  | .endOfBatch => .endOfBatch

/-- Adopts the block check and the flow that a signal asks for; `none` if the signal is not an
invitation. -/
def negotiate? (s : Sender) : Control → Option Sender
  | .nak => some { s with trailer := .checksum, streaming := false }
  | .crcRequest => some { s with trailer := .crc, streaming := false }
  | .streamRequest => some { s with trailer := .crc, streaming := true }
  | .ack | .can | .eot => none

/-- Looks at options and files before anything is exchanged. -/
def start (s : Sender) : Sender :=
  match s.options.check with
  | some e => s.reject e
  | none =>
    -- Without headers the receiver could not tell two files apart.
    if s.options.protocol = .xmodem ∧ s.job.files.length ≠ 1 then
      s.reject (.invalidArgument
        ("XMODEM sends exactly one file, got " ++ Numeral.decimal s.job.files.length))
    else s.goto .nextFile

/-- Takes up the next file, or ends the batch. -/
def nextFile (s : Sender) : Sender :=
  match s.job.files, s.options.protocol with
  | _ :: _, _ => s.goto (.await .file)
  -- A batch of no files has an end, too.
  | [], .ymodem => s.goto (.await .endOfBatch)
  | [], .xmodem => s.complete

/-- Begins to send an item; failures are counted from zero. -/
def begin (s : Sender) (item : Item) : Sender :=
  -- A batch receiver refuses the first end mark to make sure of it.
  (s.mapSession Session.resetRetries).goto (.offer item (item = .endOfFile))

/-- Begins to send the data of the current file. -/
def beginData (s : Sender) : Sender :=
  match s.job.files with
  | [] => s.goto .nextFile
  | file :: _ =>
    let s := s.mapSession fun session =>
      (session.enter .exchangingBlocks).beginFile (some file.name) (file.length.map UInt64.toNat)
    { s with job := { s.job with sent := 0 } }.goto .nextPiece

/-- Does what the receiver has asked for. -/
def invited (s : Sender) : Invitation → Sender
  | .file =>
    match s.options.protocol with
    | .xmodem => beginData s
    | .ymodem =>
      let s := s.mapSession (·.enter .exchangingBlocks)
      if s.streaming then s.goto .streamHeader else begin s .header
  | .data => beginData s
  | .endOfBatch => begin (s.mapSession (·.enter .exchangingBlocks)) .endOfBatch

/-- Goes on after an item has been acknowledged. -/
def acknowledged (s : Sender) (item : Item) : Sender :=
  let s := s.mapSession Session.resetRetries
  match item with
  | .header => s.goto (.await .data)
  | .block piece => s.goto (.counted piece)
  | .endOfFile =>
    { s with job := { s.job with files := s.job.files.tail, index := s.job.index + 1 } }.goto
      .nextFile
  | .endOfBatch => s.complete

/-- Goes on after an item has been refused or not been answered. -/
def refused (s : Sender) (item : Item) (spare : Bool) : Sender :=
  s.retry (stage s item) (.offer item spare)

/-- Takes in what was heard while waiting for an invitation. -/
def heardInvitation (invitation : Invitation) (task : Line.Task) (heard : Option Bytes)
    (s : Sender) : Sender :=
  match heard with
  | some (byte :: _) =>
    match Control.ofByte? byte with
    | some .can => s.fail .peerCancelled
    | some signal =>
      match negotiate? s signal with
      | some s => (s.mapSession Session.resetRetries).goto (.invited invitation)
      | none => s.goto (.listen invitation task)
    | none => s.goto (.listen invitation task)
  | _ => s.retry invitation.stage (.attempt invitation)

/-- Takes in what was heard while waiting for an answer. -/
def heardAnswer (item : Item) (spare : Bool) (task : Line.Task) (heard : Option Bytes)
    (s : Sender) : Sender :=
  match heard with
  | some (byte :: _) =>
    match Control.ofByte? byte with
    | some .can => s.fail .peerCancelled
    | some .ack => s.goto (.acknowledged item)
    | some .nak => if spare then s.goto (.offer item false) else refused s item spare
    | _ => s.goto (.answer item spare task)
  | _ => refused s item spare

/-- Takes in what was heard in the middle of a stream. -/
def heardInStream (piece : Bytes) (heard : Option Bytes) (s : Sender) : Sender :=
  match heard with
  | some (byte :: _) =>
    if byte = Control.can.byte then s.fail .peerCancelled else s.goto (.drain piece)
  | _ => s.goto (.counted piece)

/-- Goes on after a piece has been fetched; an empty one means that the file has ended. -/
def gathered (s : Sender) (piece : Bytes) : Action Sender :=
  if piece.isEmpty then
    -- The file is finished for the session before its end is acknowledged.
    let s := s.mapSession fun session => (session.finishFile s.job.sent).enter .awaitEotAck
    .silent (begin s .endOfFile)
  else if s.streaming then s.write (frame s (.block piece)) (.drain piece)
  else .silent (begin s (.block piece))

/-- Takes in what was fetched for a piece. A piece is complete when it fills a block, or when
the file has ended. -/
def fetched (s : Sender) (piece : Bytes) (most : Nat) (reply : Except IoError Bytes) : Sender :=
  match reply with
  -- An interrupted reading has brought nothing and is tried again.
  | .error e => if e.kind = .interrupted then s.goto (.gather piece) else s.fail (.file e)
  | .ok data =>
    let more := piece ++ data.take most
    -- A reading that brought less than was asked for does not mean that the file ends.
    if data.isEmpty ∨ most ≤ data.length then s.goto (.gathered more) else s.goto (.gather more)

/-- The act of the sender at a step. -/
def step (s : Sender) : Step → Action Sender
  | .start => .silent (start s)
  | .nextFile => .silent (nextFile s)
  | .await invitation =>
    .silent ((s.mapSession fun session => (session.enter .awaitHandshake).resetRetries).goto
      (.attempt invitation))
  | .attempt invitation =>
    s.unlessAborted (.silent (s.goto (.listen invitation
      (.byte (s.moment.now + s.options.config.handshakeTimeout.toNat)))))
  | .listen invitation task =>
    s.listen task (.listen invitation) (heardInvitation invitation task)
  | .invited invitation => .silent (invited s invitation)
  | .streamHeader => s.unlessAborted (s.write (frame s .header) (.await .data))
  | .offer item spare => s.unlessAborted (s.write (frame s item) (.sent item spare))
  | .sent item spare =>
    .silent (s.goto (.answer item spare
      (.byte (s.moment.now + s.options.config.responseTimeout.toNat))))
  | .answer item spare task =>
    s.listen task (.answer item spare) (heardAnswer item spare task)
  | .acknowledged item => .silent (acknowledged s item)
  | .nextPiece => s.unlessAborted (.silent (s.goto (.gather [])))
  | .gather piece =>
    let most := s.options.variant.blockSize.length - piece.length
    .fetch s.job.index most fun reply moment => fetched { s with moment } piece most reply
  | .gathered piece => gathered s piece
  | .drain piece => s.listen .poll (fun _ => .drain piece) (heardInStream piece)
  | .counted piece =>
    let s := s.mapSession (·.completeBlock piece.length)
    { s with job := { s.job with sent := s.job.sent + piece.length } }.report .nextPiece

/-- The next act of the sender. -/
def act (s : Sender) : Action Sender :=
  Party.act (step s) s

end Sender

end BlockTransfer

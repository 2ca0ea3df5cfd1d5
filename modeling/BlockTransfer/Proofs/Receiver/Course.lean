import BlockTransfer.Proofs.Frame
import BlockTransfer.Proofs.Patience
import BlockTransfer.Receiver

/-!
# The course of a receiver

What the acts of a receiver may lead to, said once for all of them. An act goes on with a step, or
it ends the run: the transfer fails, is complete, is given up because a stop is requested, or is
refused at the start. All that a receiver writes while it goes on are single signals.

## Main definitions

* `Receiver.Placed`: a receiver waits for what belongs to its step.
* `Receiver.Says`: the signals that a receiver writes.
* `Receiver.Turns`: how an act goes on.
* `Receiver.Breaks`: how an act fails.
* `Receiver.Course`: what an act leads to.

## Main results

* `Receiver.ensures_course`: every act takes this course.
* `Receiver.attentive_act`: every act leaves the receiver knowing the moment.
* `Receiver.Turns.placed`: a receiver gets from fitting steps to fitting steps only.
-/

namespace BlockTransfer

namespace Receiver

/-! ## Steps -/

namespace Step

/-- What is wanted of the line at a step. -/
def task? : Step → Option Line.Task
  | .listen _ task | .collect _ _ _ task | .purge _ task => some task
  | _ => none

/-- The same wait with another task. -/
def rewait (task : Line.Task) : Step → Step
  | .listen purpose _ => .listen purpose task
  | .collect purpose frame needed _ => .collect purpose frame needed task
  | .purge purpose _ => .purge purpose task
  | step => step

/-- Whether a request to stop is looked for at a step. -/
def halts : Step → Bool
  | .attempt _ _ | .nextBlock _ => true
  | _ => false

end Step

/-- A receiver waits for what belongs to its step: for the byte that begins a block, for the bytes
that are missing of its frame, or for silence. -/
def Placed (s : Receiver) : Step → Prop
  | .listen _ task => ∃ deadline, task = .byte deadline
  | .collect _ frame needed task =>
    frame ≠ [] ∧ Block.decode frame s.trailer = .error (.incomplete needed) ∧
      ∃ idle deadline, task = .exact needed idle deadline
  | .purge _ task => ∃ period, task = .quiet period
  | _ => True

/-- A wait that goes on waits for what belongs to it. -/
theorem Placed.rewait {s s' : Receiver} {step : Step} (h : s.Placed step)
    {task task' : Line.Task} {left arrived pending : Bytes} {now : Nat}
    (htrailer : s'.trailer = s.trailer) (htask : step.task? = some task)
    (hhear : task.hear left arrived now = .waiting task' pending) :
    s'.Placed (step.rewait task') := by
  cases step with
  | listen purpose task =>
    obtain ⟨deadline, rfl⟩ := h
    cases htask
    simp only [Line.Task.hear] at hhear
    split at hhear
    · cases hhear
    · cases hhear
      exact ⟨deadline, rfl⟩
  | collect purpose frame needed task =>
    obtain ⟨hframe, hneeded, idle, deadline, rfl⟩ := h
    rw [← htrailer] at hneeded
    cases htask
    simp only [Line.Task.hear] at hhear
    split at hhear
    · split at hhear
      · cases hhear
      · cases hhear
        exact ⟨hframe, hneeded, idle, deadline, rfl⟩
    · cases hhear
      exact ⟨hframe, hneeded, idle, _, rfl⟩
  | purge purpose task =>
    obtain ⟨period, rfl⟩ := h
    cases htask
    simp only [Line.Task.hear] at hhear
    split at hhear
    · cases hhear
    · cases hhear
      exact ⟨period, rfl⟩
  | _ => cases htask

/-- The signals that a receiver writes at a step: the signal, the state in which it goes on but for
the moment of the reply, and the next step. -/
inductive Says (s : Receiver) : Step → Control → Receiver → Step → Prop
  /-- Blocks are asked for. -/
  | prompt {stage : Stage} (hcalm : s.moment.abort = false) :
    Says s (.attempt stage true) s.job.handshake s (.expect (.solicited stage))
  /-- The end of the batch is acknowledged. -/
  | endOfBatch {stage : Stage} {block : Block} (hprotocol : s.options.protocol = .ymodem)
      (hnumber : block.number = 0) (hheader : FileHeader.parse block.payload = .ok none) :
    Says s (.judge (.solicited stage) (.block block)) .ack (s.mapSession Session.resetRetries)
      .finish
  /-- The end of the last file is acknowledged once more. -/
  | endAgain {stage : Stage} (hprotocol : s.options.protocol = .ymodem) :
    Says s (.judge (.solicited stage) .endOfFile) .ack s (.missed (.solicited stage) true)
  /-- A damaged block is refused. -/
  | refuse {purpose : Purpose} : Says s (.refuse purpose) .nak s (.missed purpose false)
  /-- A header is acknowledged. -/
  | announced {header : FileHeader} (hstreaming : s.streaming = false) :
    Says s (.announced header) .ack s (.signal header)
  /-- The data is asked for, which is answer enough to a header in a stream. -/
  | announcedStream {header : FileHeader} (hstreaming : s.streaming = true) :
    Says s (.announced header) s.job.handshake s (.openFile (some header) none)
  /-- The data is asked for. -/
  | signal {header : FileHeader} :
    Says s (.signal header) s.job.handshake s (.openFile (some header) none)
  /-- A repeated block is acknowledged again. -/
  | again {block : Block} (hnumber : block.number = s.session.blockNumber - 1)
      (hstreaming : s.streaming = false) :
    Says s (.judge .data (.block block)) .ack s (.repeated block.number)
  /-- The data is asked for again after a repeated header. -/
  | repeated (hprotocol : s.options.protocol = .ymodem) :
    Says s (.repeated 0) s.job.handshake s (.nextBlock none)
  /-- The first end mark of a file in a batch is refused. -/
  | endRefused (hprotocol : s.options.protocol = .ymodem) (hfirst : s.job.endSeen = false) :
    Says s (.judge .data .endOfFile) .nak
      { s with session := s.session.enter .awaitEotAck, job := { s.job with endSeen := true } }
      (.nextBlock none)
  /-- The end of a file is acknowledged. -/
  | endTaken (hlast : s.options.protocol = .ymodem → s.job.endSeen = true) :
    Says s (.judge .data .endOfFile) .ack (s.mapSession (·.enter .awaitEotAck)) .settle
  /-- The next block is asked for again. As long as there was none, this is done with the signal
  for the data. -/
  | overdue {signal : Control} (hstreaming : s.streaming = false)
      (hsignal : signal = .nak ∨ signal = s.job.handshake ∧
        s.options.protocol = .ymodem ∧ s.session.fileBlocks = 0) :
    Says s (.judge .data .silence) signal s (.missed .data true)
  /-- A block is acknowledged. -/
  | accept {useful : Nat} (hstreaming : s.streaming = false) :
    Says s (.accept useful) .ack s (.counted useful)

/-- How an act of a receiver goes on: the state in which it goes on, and the next step. -/
inductive Turns (s : Receiver) : Step → Event → Receiver → Step → Prop
  /-- Options make sense. -/
  | start {stage : Stage} (hcheck : s.options.check = none)
      (hstage : stage = .handshake ∨ stage = .header) :
    Turns s .start .silent s (.solicit stage)
  /-- Blocks are to be asked for. -/
  | solicit (stage : Stage) :
    Turns s (.solicit stage) .silent
      (s.mapSession fun session => (session.enter .awaitHandshake).resetRetries)
      (.attempt stage true)
  /-- A signal is written. -/
  | speaks {step step' : Step} {signal : Control} {s' : Receiver} {moment : Moment}
      (h : Says s step signal s' step') :
    Turns s step (.write [signal.byte] (.ok 1)) { s' with moment } step'
  /-- The answer is awaited without another signal. -/
  | attempt {stage : Stage} (hcalm : s.moment.abort = false) :
    Turns s (.attempt stage false) .silent s (.expect (.solicited stage))
  /-- A wait for a block begins. -/
  | expect (purpose : Purpose) :
    Turns s (.expect purpose) .silent s
      (.listen purpose (.byte (s.moment.now + patience s purpose)))
  /-- Bytes have arrived, or a reading came back before its time. -/
  | arrival {step : Step} {task task' : Line.Task} {timeout : Nat} {left arrived pending : Bytes}
      {moment : Moment} (htask : step.task? = some task)
      (hlook : task.look s.pending s.moment.now = .read timeout left)
      (hhear : task.hear left arrived moment.now = .waiting task' pending) :
    Turns s step (.read timeout (.ok arrived)) { s with pending, moment } (step.rewait task')
  /-- An end mark has come. -/
  | endMark {purpose : Purpose} {task : Line.Task} {pending : Bytes}
      (hpending : s.pending = Control.eot.byte :: pending) :
    Turns s (.listen purpose task) .silent { s with pending } (.judge purpose .endOfFile)
  /-- A byte has come that begins nothing. -/
  | garbage {purpose : Purpose} {task : Line.Task} {byte : UInt8} {pending : Bytes}
      (hpending : s.pending = byte :: pending) (hmarker : BlockSize.ofMarker? byte = none) :
    Turns s (.listen purpose task) .silent { s with pending }
      (.judge purpose (.corrupt (.invalidMarker byte)))
  /-- A block has begun. -/
  | marker {purpose : Purpose} {task : Line.Task} {byte : UInt8} {pending : Bytes}
      {size : BlockSize} {needed deadline : Nat} (hpending : s.pending = byte :: pending)
      (hmarker : BlockSize.ofMarker? byte = some size)
      (hneeded : needed = Block.frameLength size s.trailer - 1) :
    Turns s (.listen purpose task) .silent { s with pending }
      (.collect purpose [byte] needed
        (.exact needed s.options.config.charTimeout.toNat deadline))
  /-- No block has come in time. -/
  | silence {purpose : Purpose} {deadline : Nat} {moment : Moment} (hpending : s.pending = [])
      (hlate : deadline ≤ moment.now) :
    Turns s (.listen purpose (.byte deadline)) (.read (deadline - s.moment.now) (.ok []))
      { s with pending := [], moment } (.judge purpose .silence)
  /-- A block is complete. -/
  | block {purpose : Purpose} {frame : Bytes} {needed idle deadline : Nat} {block : Block}
      (hpending : needed ≤ s.pending.length)
      (hdecode : Block.decode (frame ++ s.pending.take needed) s.trailer = .ok block) :
    Turns s (.collect purpose frame needed (.exact needed idle deadline)) .silent
      { s with pending := s.pending.drop needed } (.judge purpose (.block block))
  /-- A block is damaged. -/
  | damaged {purpose : Purpose} {frame : Bytes} {needed idle deadline : Nat} {e : FrameError}
      (hpending : needed ≤ s.pending.length)
      (hdecode : Block.decode (frame ++ s.pending.take needed) s.trailer = .error e) :
    Turns s (.collect purpose frame needed (.exact needed idle deadline)) .silent
      { s with pending := s.pending.drop needed } (.judge purpose (.corrupt e))
  /-- A block has come to a halt. -/
  | halted {purpose : Purpose} {frame : Bytes} {needed idle deadline timeout : Nat}
      {moment : Moment} (hlate : deadline ≤ moment.now) :
    Turns s (.collect purpose frame needed (.exact needed idle deadline))
      (.read timeout (.ok [])) { s with pending := [], moment }
      (.judge purpose (.corrupt (.incomplete needed)))
  /-- A damaged block is to be refused once the line is silent. -/
  | purge {purpose : Purpose} {e : FrameError}
      (hstreaming : purpose = .data → s.streaming = false) :
    Turns s (.judge purpose (.corrupt e)) .silent s
      (.purge purpose (.quiet s.options.config.purgeTimeout.toNat))
  /-- The line is silent. -/
  | purged {purpose : Purpose} {timeout period : Nat} {moment : Moment} :
    Turns s (.purge purpose (.quiet period)) (.read timeout (.ok []))
      { s with pending := [], moment } (.refuse purpose)
  /-- An attempt to ask for a block has failed. -/
  | missedAnswer {stage : Stage} {prompt : Bool}
      (hretries : s.session.retries + 1 < s.options.config.maxRetries.toNat) :
    Turns s (.missed (.solicited stage) prompt) .silent (s.mapSession Session.recordRetry)
      (.attempt stage prompt)
  /-- An attempt to get the next block of the file has failed. -/
  | missedBlock {prompt : Bool}
      (hretries : s.session.retries + 1 < s.options.config.maxRetries.toNat) :
    Turns s (.missed .data prompt) .silent (s.mapSession Session.recordRetry) (.nextBlock none)
  /-- No block has come for the signal. -/
  | unanswered {stage : Stage} :
    Turns s (.judge (.solicited stage) .silence) .silent (fallBack s)
      (.missed (.solicited stage) true)
  /-- The first thing that has come of a file without a header is a block or the end mark. -/
  | first {stage : Stage} {incoming : Incoming} (hprotocol : s.options.protocol = .xmodem)
      (hincoming : incoming = .endOfFile ∨ ∃ block, incoming = .block block) :
    Turns s (.judge (.solicited stage) incoming) .silent (s.mapSession Session.resetRetries)
      (.openFile none (some incoming))
  /-- A header has come. -/
  | header {stage : Stage} {block : Block} {header : FileHeader}
      (hprotocol : s.options.protocol = .ymodem) (hnumber : block.number = 0)
      (hheader : FileHeader.parse block.payload = .ok (some header)) :
    Turns s (.judge (.solicited stage) (.block block)) .silent
      (s.mapSession Session.resetRetries) (.announced header)
  /-- A file is begun. -/
  | openFile {header : Option FileHeader} {incoming : Option Incoming} {moment : Moment}
      {name : Option String} {length : Option Nat} :
    Turns s (.openFile header incoming) (.openFile header (.ok ()))
      { s with
        session := (s.session.beginFile name length).enter .exchangingBlocks
        job := { s.job with header, delivered := 0, held := none, endSeen := false }
        moment }
      (.nextBlock incoming)
  /-- What came first is taken up. -/
  | takeUp {incoming : Incoming} (hcalm : s.moment.abort = false) :
    Turns s (.nextBlock (some incoming)) .silent s (.judge .data incoming)
  /-- The next block is awaited. -/
  | nextBlock (hcalm : s.moment.abort = false) :
    Turns s (.nextBlock none) .silent s (.expect .data)
  /-- The next block has come, and what belongs to the file is to be stored. -/
  | bounded {block : Block} {length : Nat} (hnumber : block.number = s.session.blockNumber)
      (hlength : declared s = some length) :
    Turns s (.judge .data (.block block)) .silent s
      (.store (block.payload.take (length - s.job.delivered))
        (block.payload.take (length - s.job.delivered)).length)
  /-- The next block has come and is held back; it is the first one. -/
  | held {block : Block} (hnumber : block.number = s.session.blockNumber)
      (hlength : declared s = none) (hheld : s.job.held = none) :
    Turns s (.judge .data (.block block)) .silent
      { s with job := { s.job with held := some block.payload } }
      (.accept block.payload.length)
  /-- The next block has come and is held back, and the one before it is to be stored. -/
  | released {block : Block} {previous : Bytes}
      (hnumber : block.number = s.session.blockNumber) (hlength : declared s = none)
      (hheld : s.job.held = some previous) :
    Turns s (.judge .data (.block block)) .silent
      { s with job := { s.job with held := some block.payload } }
      (.store previous block.payload.length)
  /-- Data of a block is stored. -/
  | store {data : Bytes} {useful : Nat} {moment : Moment} :
    Turns s (.store data useful) (.store data (.ok ()))
      { s with
        moment
        job := { s.job with delivered := s.job.delivered + data.length } }
      (.accept useful)
  /-- A block in a stream is not answered. -/
  | accept {useful : Nat} (hstreaming : s.streaming = true) :
    Turns s (.accept useful) .silent s (.counted useful)
  /-- A block is counted and reported. -/
  | counted {useful : Nat} {moment : Moment} :
    Turns s (.counted useful) (.report (s.session.completeBlock useful).progress)
      { s with session := s.session.completeBlock useful, moment } (.nextBlock none)
  /-- A repeated block is done with. -/
  | repeated {number : UInt8} (hnumber : number = 0 → s.options.protocol = .xmodem) :
    Turns s (.repeated number) .silent s (.nextBlock none)
  /-- Nothing was held back to the end. -/
  | settled (hheld : s.job.held = none) : Turns s .settle .silent s .closeFile
  /-- The last block is to be stored without its padding. -/
  | settle {last : Bytes} (hheld : s.job.held = some last) :
    Turns s .settle .silent s (.storeLast (stripPadding last s.options.pad))
  /-- The last block is stored. -/
  | storeLast {data : Bytes} {moment : Moment} :
    Turns s (.storeLast data) (.store data (.ok ()))
      { s with
        moment
        job := { s.job with delivered := s.job.delivered + data.length } }
      .closeFile
  /-- A file of a batch is complete, and the next header is to be asked for. -/
  | closeFile {moment : Moment} (hprotocol : s.options.protocol = .ymodem) :
    Turns s .closeFile (.closeFile ⟨s.job.header, s.job.delivered⟩ (.ok ()))
      { s with session := s.session.finishFile s.job.delivered, moment } (.solicit .header)

/-- How an act of a receiver fails. -/
inductive Breaks (s : Receiver) : Step → Event → TransferError → Prop
  /-- The sender has cancelled the transfer. -/
  | cancelled {purpose : Purpose} {task : Line.Task} {pending : Bytes}
      (hpending : s.pending = Control.can.byte :: pending) :
    Breaks s (.listen purpose task) .silent .peerCancelled
  /-- The line cannot be read. -/
  | unread {step : Step} {timeout : Nat} {e : IoError} (htask : step.task? ≠ none) :
    Breaks s step (.read timeout (.error e)) (.channel e)
  /-- The line does not take a signal. -/
  | unwritten {step step' : Step} {signal : Control} {s' : Receiver}
      {reply : Except IoError Nat} {e : TransferError} (h : Says s step signal s' step')
      (hrefuses : Party.Refuses [signal.byte] reply e) :
    Breaks s step (.write [signal.byte] reply) e
  /-- A block has come where a header is expected. -/
  | headless {stage : Stage} {block : Block} (hprotocol : s.options.protocol = .ymodem)
      (hnumber : block.number ≠ 0) :
    Breaks s (.judge (.solicited stage) (.block block)) .silent (.outOfSequence 0 block.number)
  /-- A header makes no sense. -/
  | invalidHeader {stage : Stage} {block : Block} {cause : HeaderError}
      (hprotocol : s.options.protocol = .ymodem) (hnumber : block.number = 0)
      (hheader : FileHeader.parse block.payload = .error cause) :
    Breaks s (.judge (.solicited stage) (.block block)) .silent (.invalidHeader cause)
  /-- A block is neither the next one nor a repetition. -/
  | outOfSequence {block : Block} (hnumber : block.number ≠ s.session.blockNumber)
      (hrepeated : block.number = s.session.blockNumber - 1 → s.streaming = true) :
    Breaks s (.judge .data (.block block)) .silent
      (.outOfSequence s.session.blockNumber block.number)
  /-- A block in a stream is damaged. -/
  | streamCorrupted {e : FrameError} (hstreaming : s.streaming = true) :
    Breaks s (.judge .data (.corrupt e)) .silent (.streamCorrupted e)
  /-- A stream has come to a halt. -/
  | streamHalted (hstreaming : s.streaming = true) :
    Breaks s (.judge .data .silence) .silent (.timeout (.block s.session.blockNumber) 1)
  /-- The last attempt has failed. -/
  | exhausted {purpose : Purpose} {prompt : Bool}
      (hretries : s.options.config.maxRetries.toNat ≤ s.session.retries + 1) :
    Breaks s (.missed purpose prompt) .silent
      (.timeout (stage s purpose) (s.session.retries + 1))
  /-- A file cannot be begun. -/
  | unopened {header : Option FileHeader} {first : Option Incoming} {e : IoError} :
    Breaks s (.openFile header first) (.openFile header (.error e)) (.file e)
  /-- The data of a block cannot be stored. -/
  | unstored {data : Bytes} {useful : Nat} {e : IoError} :
    Breaks s (.store data useful) (.store data (.error e)) (.file e)
  /-- The data of the last block cannot be stored. -/
  | unsettled {data : Bytes} {e : IoError} :
    Breaks s (.storeLast data) (.store data (.error e)) (.file e)
  /-- A file cannot be completed. -/
  | unclosed {e : IoError} :
    Breaks s .closeFile (.closeFile ⟨s.job.header, s.job.delivered⟩ (.error e)) (.file e)

/-- How an act of a receiver completes the transfer. -/
inductive Completes (s : Receiver) : Step → Event → Prop
  /-- The only file is complete. -/
  | single (hprotocol : s.options.protocol = .xmodem) :
    Completes s .closeFile (.closeFile ⟨s.job.header, s.job.delivered⟩ (.ok ()))
  /-- The batch has ended. -/
  | batch : Completes s .finish .silent

/-- What an act of a receiver at a step leads to. -/
inductive Course (s : Receiver) : Step → Event → Receiver → Prop
  /-- It goes on. -/
  | turns {step step' : Step} {event : Event} {s' : Receiver} (h : Turns s step event s' step') :
    Course s step event (s'.goto step')
  /-- It fails. -/
  | breaks {step : Step} {event : Event} {s' : Receiver} {e : TransferError}
      (h : Breaks s step event e) : Course s step event (s'.fail e)
  /-- It completes the transfer. -/
  | completes {step : Step} {event : Event} {s' : Receiver} (h : Completes s step event) :
    Course s step event s'.complete
  /-- It gives the transfer up. -/
  | aborts {step : Step} (hhalts : step.halts = true) (habort : s.moment.abort = true) :
    Course s step .silent s.abort
  /-- It refuses to begin. -/
  | rejects {text : String} (hcheck : s.options.check ≠ none) :
    Course s .start .silent (s.reject (.invalidArgument text))

/-! ## Frames -/

section Frames

variable {motive : Receiver → Prop} {purpose : Purpose} {s : Receiver}

/-- After a marker the rest of the block is awaited. -/
theorem collect_marker {byte : UInt8} {size : BlockSize} (hbyte : byte = size.marker) :
    let needed := Block.frameLength size s.trailer - 1
    let idle := s.options.config.charTimeout.toNat
    collect purpose [byte] s =
      s.goto (.collect purpose [byte] needed (.exact needed idle (s.moment.now + idle))) := by
  rw [collect, hbyte, Block.decode_marker]

/-- A marker is the beginning of a frame. -/
theorem heardStart_marker (size : BlockSize) :
    heardStart purpose (some [size.marker]) s = collect purpose [size.marker] s := by
  cases size <;> rfl

/-- A frame of which nothing is missing is judged. -/
theorem collect_of_complete {frame : Bytes}
    (h : ∀ needed, Block.decode frame s.trailer ≠ .error (.incomplete needed)) :
    collect purpose frame s =
      s.goto (.judge purpose (.ofDecoded (Block.decode frame s.trailer))) := by
  unfold collect
  split
  · rename_i hdecode
    exact absurd hdecode (h _)
  · rfl

/-- What has come of a frame is judged, or more of it is awaited. -/
theorem collect_induction (purpose : Purpose) (frame : Bytes)
    (hawaits : ∀ frame needed idle, motive (s.goto
      (.collect purpose frame needed (.exact needed idle (s.moment.now + idle)))))
    (hjudges : ∀ incoming, motive (s.goto (.judge purpose incoming))) :
    motive (collect purpose frame s) := by
  unfold collect
  split
  · exact hawaits _ _ _
  · exact hjudges _

/-- Where a block may begin a receiver finds itself cancelled, judges what it has heard, or awaits
the rest of a frame. -/
theorem heardStart_induction (purpose : Purpose) (heard : Option Bytes)
    (hcancelled : motive (s.fail .peerCancelled))
    (hawaits : ∀ frame needed idle, motive (s.goto
      (.collect purpose frame needed (.exact needed idle (s.moment.now + idle)))))
    (hjudges : ∀ incoming, motive (s.goto (.judge purpose incoming))) :
    motive (heardStart purpose heard s) := by
  unfold heardStart
  split
  · split
    · exact hcancelled
    · split
      · exact hjudges _
      · split
        · exact hjudges _
        · exact collect_induction purpose _ hawaits hjudges
  · exact hjudges _

theorem heardRest_induction (purpose : Purpose) (frame : Bytes) (needed : Nat)
    (heard : Option Bytes)
    (hawaits : ∀ frame needed idle, motive (s.goto
      (.collect purpose frame needed (.exact needed idle (s.moment.now + idle)))))
    (hjudges : ∀ incoming, motive (s.goto (.judge purpose incoming))) :
    motive (heardRest purpose frame needed heard s) := by
  unfold heardRest
  split
  · exact collect_induction purpose _ hawaits hjudges
  · exact hjudges _

end Frames

/-! ## Acts -/

section Acts

variable {s s' : Receiver} {step step' : Step} {event : Event}

/-- A receiver looks for a request to stop. -/
theorem ensures_course_unlessAborted {act : Action Receiver} (hhalts : step.halts = true)
    (hact : s.moment.abort = false → act.Ensures (Course s step)) :
    (s.unlessAborted act).Ensures (Course s step) := by
  unfold Party.unlessAborted
  split
  · rename_i habort
    exact .aborts hhalts habort
  · rename_i hcalm
    exact hact (Bool.eq_false_iff.mpr hcalm)

/-- A receiver writes a signal. -/
theorem ensures_course_say {signal : Control} (h : Says s step signal s' step') :
    (say s' signal step').Ensures (Course s step) := by
  apply Party.ensures_write_of_refuses
  · intro reply moment e hrefuses
    exact .breaks (.unwritten h hrefuses)
  · intro moment
    exact .turns (.speaks h)

/-- A receiver that counts a failed attempt goes on or fails. -/
theorem course_retry {purpose : Purpose} {prompt : Bool}
    (hnext : s.session.retries + 1 < s.options.config.maxRetries.toNat →
      Turns s (.missed purpose prompt) .silent (s.mapSession Session.recordRetry) step') :
    Course s (.missed purpose prompt) .silent (s.retry (stage s purpose) step') := by
  unfold Party.retry
  dsimp only
  split
  · rename_i hretries
    exact .turns (hnext hretries)
  · rename_i hretries
    exact .breaks (.exhausted (Nat.le_of_not_lt hretries))

/-- A receiver that listens settles its task with what is in the queue, or reads from the line. -/
theorem ensures_course_of_listen {task : Line.Task} {again : Line.Task → Step}
    {heard : Option Bytes → Receiver → Receiver} (htask : step.task? = some task)
    (hagain : ∀ task, again task = step.rewait task)
    (hheard : ∀ r, task.look s.pending s.moment.now = .settled r →
      Course s step .silent (heard r.result { s with pending := r.pending }))
    (hvain : ∀ timeout left arrived moment r,
      task.look s.pending s.moment.now = .read timeout left →
      task.hear left arrived moment.now = .settled r →
      Course s step (.read timeout (.ok arrived))
        (heard none { s with pending := r.pending, moment })) :
    (s.listen task again heard).Ensures (Course s step) := by
  apply Party.ensures_listen_of_channel hheard
  · intro timeout left e moment _
    refine .breaks (.unread ?_)
    rw [htask]
    exact Option.some_ne_none task
  · exact hvain
  · intro timeout left arrived moment task' left' hlook hhear
    rw [hagain]
    exact .turns (.arrival htask hlook hhear)

/-- What a receiver does with a byte where a block may begin. -/
theorem course_heardStart {purpose : Purpose} {task : Line.Task} {byte : UInt8} {pending : Bytes}
    (hpending : s.pending = byte :: pending) :
    Course s (.listen purpose task) .silent
      (heardStart purpose (some [byte]) { s with pending }) := by
  unfold heardStart
  dsimp only
  split
  · rename_i hcan
    rw [hcan] at hpending
    exact .breaks (.cancelled hpending)
  · split
    · rename_i heot
      rw [heot] at hpending
      exact .turns (.endMark hpending)
    · cases hmarker : BlockSize.ofMarker? byte with
      | none => exact .turns (.garbage hpending hmarker)
      | some size =>
        rw [collect_marker (BlockSize.ofMarker?_eq_some_iff.mp hmarker)]
        exact .turns (.marker hpending hmarker rfl)

/-- What a receiver does with the bytes that were missing of a block. -/
theorem course_heardRest {purpose : Purpose} {frame : Bytes} {needed idle deadline : Nat}
    (hframe : frame ≠ []) (hneeded : Block.decode frame s.trailer = .error (.incomplete needed))
    (hpending : needed ≤ s.pending.length) :
    Course s (.collect purpose frame needed (.exact needed idle deadline)) .silent
      (heardRest purpose frame needed (some (s.pending.take needed))
        { s with pending := s.pending.drop needed }) := by
  rw [← List.length_take_of_le hpending] at hneeded
  rw [heardRest, collect_of_complete (s := { s with pending := s.pending.drop needed })
    (Block.decode_ne_incomplete hframe hneeded)]
  cases hdecode : Block.decode (frame ++ s.pending.take needed) s.trailer with
  | ok block => exact .turns (.block hpending hdecode)
  | error e => exact .turns (.damaged hpending hdecode)

/-- What a receiver does with a block where a header is expected. -/
theorem ensures_course_readHeader {stage : Stage} (block : Block)
    (hprotocol : s.options.protocol = .ymodem) :
    (readHeader (s.mapSession Session.resetRetries) block).Ensures
      (Course s (.judge (.solicited stage) (.block block))) := by
  unfold readHeader
  split
  · rename_i hnumber
    exact .breaks (.headless hprotocol hnumber)
  · rename_i hnumber
    have hzero := Decidable.not_not.mp hnumber
    cases hheader : FileHeader.parse block.payload with
    | error cause => exact .breaks (.invalidHeader hprotocol hzero hheader)
    | ok header? =>
      cases header? with
      | none => exact ensures_course_say (.endOfBatch hprotocol hzero hheader)
      | some header => exact .turns (.header hprotocol hzero hheader)

/-- What a receiver does with the answer to its signal. -/
theorem ensures_course_judgeSolicited (stage : Stage) (incoming : Incoming) :
    (judgeSolicited s stage incoming).Ensures
      (Course s (.judge (.solicited stage) incoming)) := by
  unfold judgeSolicited
  cases incoming with
  | block block =>
    dsimp only
    split
    · rename_i hprotocol
      exact .turns (.first hprotocol (.inr ⟨block, rfl⟩))
    · rename_i hprotocol
      exact ensures_course_readHeader block hprotocol
  | endOfFile =>
    cases hprotocol : s.options.protocol with
    | xmodem => exact .turns (.first hprotocol (.inl rfl))
    | ymodem => exact ensures_course_say (.endAgain hprotocol)
  | corrupt e => exact .turns (.purge nofun)
  | silence => exact .turns .unanswered

/-- What a receiver does with the next block of a file. -/
theorem course_take {block : Block} (hnumber : block.number = s.session.blockNumber) :
    Course s (.judge .data (.block block)) .silent (take s block.payload) := by
  unfold take
  cases hlength : declared s with
  | some length => exact .turns (.bounded hnumber hlength)
  | none =>
    cases hheld : s.job.held with
    | none => exact .turns (.held hnumber hlength hheld)
    | some previous => exact .turns (.released hnumber hlength hheld)

/-- What a receiver does with what comes in the middle of a file. -/
theorem ensures_course_judgeData (incoming : Incoming) :
    (judgeData s incoming).Ensures (Course s (.judge .data incoming)) := by
  unfold judgeData
  cases incoming with
  | block block =>
    dsimp only
    split
    · rename_i hnumber
      exact course_take hnumber
    · rename_i hnumber
      split
      · rename_i hagain
        exact ensures_course_say (.again hagain.1 (Bool.eq_false_iff.mpr hagain.2))
      · rename_i hagain
        refine .breaks (.outOfSequence hnumber ?_)
        intro hrepeated
        by_contra hstreaming
        exact hagain ⟨hrepeated, hstreaming⟩
  | endOfFile =>
    dsimp only
    split
    · rename_i hfirst
      exact ensures_course_say (.endRefused hfirst.1 (Bool.eq_false_iff.mpr hfirst.2))
    · rename_i hfirst
      refine ensures_course_say (.endTaken ?_)
      intro hprotocol
      by_contra hseen
      exact hfirst ⟨hprotocol, hseen⟩
  | corrupt e =>
    dsimp only
    split
    · rename_i hstreaming
      exact .breaks (.streamCorrupted hstreaming)
    · rename_i hstreaming
      exact .turns (.purge fun _ => Bool.eq_false_iff.mpr hstreaming)
  | silence =>
    dsimp only
    split
    · rename_i hstreaming
      exact .breaks (.streamHalted hstreaming)
    · rename_i hstreaming
      have hanswered := Bool.eq_false_iff.mpr hstreaming
      split
      · rename_i hfresh
        exact ensures_course_say (.overdue hanswered (.inr ⟨rfl, hfresh⟩))
      · exact ensures_course_say (.overdue hanswered (.inl rfl))

/-- What a receiver does when it waits for the byte that begins a block. -/
theorem ensures_course_listen (purpose : Purpose) (deadline : Nat) :
    (Receiver.step s (.listen purpose (.byte deadline))).Ensures
      (Course s (.listen purpose (.byte deadline))) := by
  have hsingle : (Line.Task.byte deadline).Single := .inr ⟨deadline, rfl⟩
  refine ensures_course_of_listen rfl (fun _ => rfl) ?_ ?_
  · intro r hlook
    obtain ⟨byte, pending, hpending, rfl⟩ := hsingle.look_settled hlook
    exact course_heardStart hpending
  · intro timeout left arrived moment r hlook hhear
    obtain ⟨hpending, rfl⟩ := hsingle.look_read hlook
    have hlate := Line.Task.deadline_le_of_hear hhear
    obtain ⟨rfl, rfl⟩ := hsingle.hear_settled hhear
    rw [hpending] at hlook
    cases hlook
    exact .turns (.silence hpending hlate)

/-- What a receiver does when it waits for the rest of a block. -/
theorem ensures_course_collect (purpose : Purpose) {frame : Bytes} {needed : Nat}
    (hframe : frame ≠ []) (hneeded : Block.decode frame s.trailer = .error (.incomplete needed))
    (idle deadline : Nat) :
    (Receiver.step s (.collect purpose frame needed (.exact needed idle deadline))).Ensures
      (Course s (.collect purpose frame needed (.exact needed idle deadline))) := by
  refine ensures_course_of_listen rfl (fun _ => rfl) ?_ ?_
  · intro r hlook
    simp only [Line.Task.look] at hlook
    split at hlook
    · rename_i hpending
      cases hlook
      exact course_heardRest hframe hneeded hpending
    · cases hlook
  · intro timeout left arrived moment r hlook hhear
    obtain ⟨rfl, hlate, rfl⟩ := Line.Task.eq_nil_of_hear_exact hhear
    exact .turns (.halted hlate)

/-- What a receiver does when it waits for silence. -/
theorem ensures_course_purge (purpose : Purpose) (period : Nat) :
    (Receiver.step s (.purge purpose (.quiet period))).Ensures
      (Course s (.purge purpose (.quiet period))) := by
  unfold Receiver.step
  refine ensures_course_of_listen rfl (fun _ => rfl) ?_ ?_
  · intro r hlook
    cases hlook
  · intro timeout left arrived moment r hlook hhear
    cases hlook
    obtain ⟨rfl, rfl⟩ := Line.Task.eq_nil_of_hear_quiet hhear
    exact .turns .purged

/-- What a receiver does when it begins a file. -/
theorem ensures_course_begin (header : Option FileHeader) (first : Option Incoming) :
    (begin s header first).Ensures (Course s (.openFile header first)) := by
  intro reply moment
  cases reply with
  | error e => exact .breaks .unopened
  | ok => exact .turns .openFile

/-- What a receiver does when it closes a file. -/
theorem ensures_course_close : (close s).Ensures (Course s .closeFile) := by
  intro reply moment
  cases reply with
  | error e => exact .breaks .unclosed
  | ok =>
    dsimp only
    split
    · rename_i hprotocol
      exact .completes (.single hprotocol)
    · rename_i hprotocol
      exact .turns (.closeFile hprotocol)

/-- What a receiver does when it looks at its options. -/
theorem course_start : Course s .start .silent (start s) := by
  unfold start
  cases hcheck : s.options.check with
  | some e =>
    obtain ⟨text, rfl⟩ := Options.eq_invalidArgument_of_check hcheck
    exact .rejects (by simp [hcheck])
  | none =>
    dsimp only
    split
    · exact .turns (.start hcheck (.inl rfl))
    · exact .turns (.start hcheck (.inr rfl))

/-- What the steps of a receiver lead to. -/
theorem ensures_course (hplaced : s.Placed step) :
    (Receiver.step s step).Ensures (Course s step) := by
  cases step with
  | start => exact course_start
  | solicit stage => exact .turns (.solicit stage)
  | attempt stage prompt =>
    refine ensures_course_unlessAborted rfl fun hcalm => ?_
    cases prompt with
    | true => exact ensures_course_say (.prompt hcalm)
    | false => exact .turns (.attempt hcalm)
  | expect purpose => exact .turns (.expect purpose)
  | listen purpose task =>
    obtain ⟨deadline, rfl⟩ := hplaced
    exact ensures_course_listen purpose deadline
  | collect purpose frame needed task =>
    obtain ⟨hframe, hneeded, idle, deadline, rfl⟩ := hplaced
    exact ensures_course_collect purpose hframe hneeded idle deadline
  | judge purpose incoming =>
    cases purpose with
    | solicited stage => exact ensures_course_judgeSolicited stage incoming
    | data => exact ensures_course_judgeData incoming
  | purge purpose task =>
    obtain ⟨period, rfl⟩ := hplaced
    exact ensures_course_purge purpose period
  | refuse purpose => exact ensures_course_say .refuse
  | missed purpose prompt =>
    cases purpose with
    | solicited stage => exact course_retry .missedAnswer
    | data => exact course_retry .missedBlock
  | announced header =>
    unfold Receiver.step
    dsimp only
    split
    · rename_i hstreaming
      exact ensures_course_say (.announcedStream hstreaming)
    · rename_i hstreaming
      exact ensures_course_say (.announced (Bool.eq_false_iff.mpr hstreaming))
  | signal header => exact ensures_course_say .signal
  | openFile header first => exact ensures_course_begin header first
  | nextBlock first =>
    refine ensures_course_unlessAborted rfl fun hcalm => ?_
    cases first with
    | some incoming => exact .turns (.takeUp hcalm)
    | none => exact .turns (.nextBlock hcalm)
  | store data useful =>
    intro reply moment
    cases reply with
    | error e => exact .breaks .unstored
    | ok => exact .turns .store
  | accept useful =>
    unfold Receiver.step
    dsimp only
    split
    · rename_i hstreaming
      exact .turns (.accept hstreaming)
    · rename_i hstreaming
      exact ensures_course_say (.accept (Bool.eq_false_iff.mpr hstreaming))
  | counted useful =>
    intro moment
    exact .turns .counted
  | repeated number =>
    unfold Receiver.step
    dsimp only
    split
    · rename_i hheader
      obtain ⟨rfl, hprotocol⟩ := hheader
      exact ensures_course_say (.repeated hprotocol)
    · rename_i hheader
      refine .turns (.repeated ?_)
      intro hnumber
      cases hprotocol : s.options.protocol with
      | xmodem => rfl
      | ymodem => exact absurd ⟨hnumber, hprotocol⟩ hheader
  | settle =>
    unfold Receiver.step settle
    dsimp only
    cases hheld : s.job.held with
    | none => exact .turns (.settled hheld)
    | some last => exact .turns (.settle hheld)
  | storeLast data =>
    intro reply moment
    cases reply with
    | error e => exact .breaks .unsettled
    | ok => exact .turns .storeLast
  | closeFile => exact ensures_course_close
  | finish => exact .completes .batch

/-- A receiver gets from fitting steps to fitting steps only. -/
theorem Turns.placed (h : Turns s step event s' step') (hplaced : s.Placed step) :
    s'.Placed step' := by
  cases h with
  | speaks h => cases h <;> trivial
  | arrival htask hlook hhear => exact hplaced.rewait rfl htask hhear
  | expect => exact ⟨_, rfl⟩
  | marker _ hmarker hneeded =>
    refine ⟨List.cons_ne_nil _ _, ?_, _, _, rfl⟩
    rw [hneeded, BlockSize.ofMarker?_eq_some_iff.mp hmarker]
    exact Block.decode_marker _ _
  | purge => exact ⟨_, rfl⟩
  | _ => trivial

/-- An act of a receiver goes on with a step or brings it to an end. -/
theorem Course.turns_or_parted {next : Receiver} (h : Course s step event next) :
    (∃ s' step', next = s'.goto step' ∧ Turns s step event s' step') ∨ next.Parted := by
  cases h with
  | turns h => exact .inl ⟨_, _, rfl, h⟩
  | breaks => exact .inr (Party.parted_fail _ _)
  | completes => exact .inr (Party.parted_complete _)
  | aborts => exact .inr (Party.parted_abort _)
  | rejects => exact .inr (Party.parted_reject _ _)

/-- What an act of a receiver leads to, as long as it is at a step that fits. -/
theorem ensures_act_of_course {post : Event → Receiver → Prop}
    (hplaced : ∀ step, s.phase = .doing step → s.Placed step)
    (hcourse : ∀ step event next, s.phase = .doing step → Course s step event next →
      post event next)
    (hcancel : ∀ ending reply moment, s.phase = .cancelling ending →
      post (.write [Control.can.byte, Control.can.byte] reply)
        { s with moment, phase := .over ending }) : (Receiver.act s).Ensures post := by
  refine Party.ensures_act ?_ hcancel
  intro step hphase
  refine (ensures_course (hplaced step hphase)).mono ?_
  exact fun event next h => hcourse step event next hphase h

/-! ## Moments -/

theorem moment_heardStart (purpose : Purpose) (heard : Option Bytes) (s : Receiver) :
    (heardStart purpose heard s).moment = s.moment :=
  heardStart_induction (motive := fun next => next.moment = s.moment) purpose heard rfl
    (fun _ _ _ => rfl) fun _ => rfl

theorem moment_heardRest (purpose : Purpose) (frame : Bytes) (needed : Nat)
    (heard : Option Bytes) (s : Receiver) :
    (heardRest purpose frame needed heard s).moment = s.moment :=
  heardRest_induction (motive := fun next => next.moment = s.moment) purpose frame needed heard
    (fun _ _ _ => rfl) fun _ => rfl

theorem moment_fallBack (s : Receiver) : (fallBack s).moment = s.moment := by
  unfold fallBack
  dsimp only
  split <;> rfl

theorem moment_take (s : Receiver) (payload : Bytes) : (take s payload).moment = s.moment := by
  unfold take
  split
  · rfl
  · dsimp only
    split <;> rfl

theorem attentive_judgeSolicited (s : Receiver) (stage : Stage) (incoming : Incoming) :
    (judgeSolicited s stage incoming).Attentive s.moment := by
  unfold judgeSolicited
  cases incoming with
  | block block =>
    dsimp only
    split
    · rfl
    · unfold readHeader
      split
      · rfl
      · split
        · rfl
        · exact Party.attentive_write _ _ _
        · rfl
  | endOfFile =>
    dsimp only
    split
    · rfl
    · exact Party.attentive_write _ _ _
  | corrupt e => rfl
  | silence => exact moment_fallBack s

theorem attentive_judgeData (s : Receiver) (incoming : Incoming) :
    (judgeData s incoming).Attentive s.moment := by
  unfold judgeData
  cases incoming with
  | block block =>
    dsimp only
    split
    · exact moment_take s _
    · split
      · exact Party.attentive_write _ _ _
      · rfl
  | endOfFile =>
    dsimp only
    split <;> exact Party.attentive_write _ _ _
  | corrupt e =>
    dsimp only
    split <;> rfl
  | silence =>
    dsimp only
    split
    · rfl
    · split <;> exact Party.attentive_write _ _ _

/-- A receiver always knows the moment of the last reply. -/
theorem attentive_step (s : Receiver) (step : Step) :
    (Receiver.step s step).Attentive s.moment := by
  cases step with
  | start =>
    simp only [Receiver.step, Action.Attentive, start]
    split
    · rfl
    · split <;> rfl
  | attempt stage prompt =>
    apply Party.attentive_unlessAborted
    cases prompt with
    | true => exact Party.attentive_write s _ _
    | false => rfl
  | listen => exact Party.attentive_listen (moment_heardStart _)
  | collect => exact Party.attentive_listen (moment_heardRest _ _ _)
  | purge =>
    unfold Receiver.step
    exact Party.attentive_listen fun _ _ => rfl
  | judge purpose incoming =>
    cases purpose with
    | solicited stage => exact attentive_judgeSolicited s stage incoming
    | data => exact attentive_judgeData s incoming
  | refuse | signal => exact Party.attentive_write s _ _
  | missed purpose prompt => cases purpose <;> exact Party.moment_retry s _ _
  | announced =>
    unfold Receiver.step
    dsimp only
    split <;> exact Party.attentive_write s _ _
  | openFile | store | storeLast =>
    intro reply moment
    cases reply <;> rfl
  | nextBlock => exact Party.attentive_unlessAborted rfl
  | accept =>
    unfold Receiver.step
    dsimp only
    split
    · rfl
    · exact Party.attentive_write s _ _
  | repeated =>
    unfold Receiver.step
    dsimp only
    split
    · exact Party.attentive_write s _ _
    · rfl
  | counted => exact fun _ => rfl
  | settle =>
    simp only [Receiver.step, Action.Attentive, settle]
    split <;> rfl
  | closeFile =>
    intro reply moment
    cases reply with
    | error e => rfl
    | ok =>
      dsimp only
      split <;> rfl
  | solicit | expect | finish => rfl

theorem attentive_act (s : Receiver) : (Receiver.act s).Attentive s.moment :=
  Party.attentive_act fun step _ => attentive_step s step

end Acts

end Receiver

end BlockTransfer

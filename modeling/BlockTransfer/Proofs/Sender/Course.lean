import BlockTransfer.Proofs.Patience
import BlockTransfer.Proofs.Sender.Reactions

/-!
# The course of a sender

What the acts of a sender may lead to, said once for all of them. An act goes on with a step, or it
ends the run: the transfer fails, is complete, is given up because a stop is requested, or is
refused at the start. What holds along every run of a sender follows from this by cases.

## Main definitions

* `Sender.Placed`: a step fits the state of a sender.
* `Sender.Turns`: how an act goes on.
* `Sender.Breaks`: how an act fails.
* `Sender.Course`: what an act leads to.

## Main results

* `Sender.ensures_course`: every act takes this course.
* `Sender.attentive_act`: every act leaves the sender knowing the moment.
* `Sender.Turns.placed`: a sender gets from fitting steps to fitting steps only.
-/

namespace BlockTransfer

namespace Sender

/-! ## Steps -/

namespace Step

/-- Whether a step belongs to the sending of a file. -/
def ofFile : Step → Bool
  | .start | .nextFile => false
  | .await invitation | .attempt invitation | .listen invitation _ | .invited invitation =>
    invitation ≠ .endOfBatch
  | .offer item _ | .sent item _ | .answer item _ _ | .acknowledged item => item ≠ .endOfBatch
  | .streamHeader | .nextPiece | .gather _ | .gathered _ | .drain _ | .counted _ => true

/-- What is wanted of the line at a step at which a signal is awaited. -/
def awaited? : Step → Option Line.Task
  | .listen _ task | .answer _ _ task => some task
  | _ => none

/-- What is wanted of the line at a step. In a stream nothing is awaited. -/
def task? : Step → Option Line.Task
  | .drain _ => some .poll
  | step => step.awaited?

/-- The signals that are acted on at a step. -/
def heeds : Step → Control → Bool
  | .listen _ _, signal => signal = .can || (mode? signal).isSome
  | .answer _ _ _, signal => signal = .can || signal = .ack || signal = .nak
  | .drain _, signal => signal = .can
  | _, _ => false

/-- What is written at a step. -/
def item? : Step → Option Item
  | .streamHeader => some .header
  | .offer item _ => some item
  | .gathered piece => some (.block piece)
  | _ => none

/-- Whether a request to stop is looked for at a step. -/
def halts : Step → Bool
  | .attempt _ | .streamHeader | .offer _ _ | .nextPiece => true
  | _ => false

end Step

/-- A step fits the state of a sender: there is a file where one is being sent, and the signals of
the receiver are awaited one by one, until a deadline. -/
structure Placed (s : Sender) (step : Step) : Prop where
  /-- There is a file. -/
  files_ne_nil : step.ofFile = true → s.job.files ≠ []
  /-- One byte is awaited. -/
  timed : ∀ task, step.awaited? = some task → ∃ deadline, task = .byte deadline

/-- A sender listens for one byte only. -/
theorem Placed.single {s : Sender} {step : Step} (h : s.Placed step) {task : Line.Task}
    (htask : step.task? = some task) : task.Single := by
  cases step with
  | listen | answer => exact .inr (h.timed task htask)
  | drain =>
    cases htask
    exact .inl rfl
  | _ => cases htask

/-- How an act of a sender goes on: the state in which it goes on, and the next step. -/
inductive Turns (s : Sender) : Step → Event → Sender → Step → Prop
  /-- Options and files make sense. -/
  | start (hcheck : s.options.check = none)
      (hfiles : s.options.protocol = .xmodem → s.job.files.length = 1) :
    Turns s .start .silent s .nextFile
  /-- There is another file. -/
  | nextFile (hfiles : s.job.files ≠ []) : Turns s .nextFile .silent s (.await .file)
  /-- There are no more files, and the batch has an end. -/
  | endBatch (hfiles : s.job.files = []) (hprotocol : s.options.protocol = .ymodem) :
    Turns s .nextFile .silent s (.await .endOfBatch)
  /-- A wait for an invitation begins. -/
  | await (invitation : Invitation) :
    Turns s (.await invitation) .silent
      (s.mapSession fun session => (session.enter .awaitHandshake).resetRetries)
      (.attempt invitation)
  /-- An attempt of that wait begins. -/
  | attempt (invitation : Invitation) (hcalm : s.moment.abort = false) :
    Turns s (.attempt invitation) .silent s
      (.listen invitation (.byte (s.moment.now + s.options.config.handshakeTimeout.toNat)))
  /-- A byte has come that means nothing. -/
  | noise {step : Step} {byte : UInt8} {pending : Bytes} (htask : step.task? ≠ none)
      (hpending : s.pending = byte :: pending)
      (hnoise : ∀ signal, Control.ofByte? byte = some signal → step.heeds signal = false) :
    Turns s step .silent { s with pending } step
  /-- Bytes have arrived, or a reading came back before its time. -/
  | arrival {step : Step} {task : Line.Task} {timeout : Nat} {arrived : Bytes} {moment : Moment}
      (htask : step.task? = some task) (hpending : s.pending = [])
      (hlook : task.look [] s.moment.now = .read timeout [])
      (hhear : task.hear [] arrived moment.now = .waiting task arrived) :
    Turns s step (.read timeout (.ok arrived)) { s with pending := arrived, moment } step
  /-- The invitation has come. -/
  | invited {invitation : Invitation} {task : Line.Task} {byte : UInt8} {signal : Control}
      {pending : Bytes} {trailer : Trailer} {streaming : Bool}
      (hpending : s.pending = byte :: pending) (hsignal : Control.ofByte? byte = some signal)
      (hmode : mode? signal = some (trailer, streaming)) :
    Turns s (.listen invitation task) .silent
      ({ s with pending, trailer, streaming }.mapSession Session.resetRetries)
      (.invited invitation)
  /-- An attempt to be invited was in vain. -/
  | lapse {invitation : Invitation} {deadline : Nat} {moment : Moment} (hpending : s.pending = [])
      (hlate : deadline ≤ moment.now)
      (hretries : s.session.retries + 1 < s.options.config.maxRetries.toNat) :
    Turns s (.listen invitation (.byte deadline))
      (.read (deadline - s.moment.now) (.ok []))
      ({ s with pending := [], moment }.mapSession Session.recordRetry) (.attempt invitation)
  /-- The data of the file is begun. -/
  | beginData {invitation : Invitation} {header : FileHeader} {headers : List FileHeader}
      (hfiles : s.job.files = header :: headers)
      (hdata : invitation = .data ∨ invitation = .file ∧ s.options.protocol = .xmodem) :
    Turns s (.invited invitation) .silent
      { s with
        session := (s.session.enter .exchangingBlocks).beginFile (some header.name)
          (header.length.map UInt64.toNat)
        job := { s.job with sent := 0 } }
      .nextPiece
  /-- The header is to go into a stream. -/
  | beginStream (hprotocol : s.options.protocol = .ymodem) (hstreaming : s.streaming = true) :
    Turns s (.invited .file) .silent (s.mapSession (·.enter .exchangingBlocks)) .streamHeader
  /-- The header is to be sent until it is acknowledged. -/
  | beginHeader (hprotocol : s.options.protocol = .ymodem) (hstreaming : s.streaming = false) :
    Turns s (.invited .file) .silent
      (s.mapSession fun session => (session.enter .exchangingBlocks).resetRetries)
      (.offer .header false)
  /-- The end of the batch is to be sent. -/
  | beginEndOfBatch :
    Turns s (.invited .endOfBatch) .silent
      (s.mapSession fun session => (session.enter .exchangingBlocks).resetRetries)
      (.offer .endOfBatch false)
  /-- The header has been written into a stream. -/
  | streamHeader {moment : Moment} (hcalm : s.moment.abort = false) :
    Turns s .streamHeader (.write (frame s .header) (.ok (frame s .header).length))
      { s with moment } (.await .data)
  /-- An item has been written. -/
  | offer {item : Item} {spare : Bool} {moment : Moment} (hcalm : s.moment.abort = false) :
    Turns s (.offer item spare) (.write (frame s item) (.ok (frame s item).length))
      { s with moment } (.sent item spare)
  /-- Its answer is awaited. -/
  | sent (item : Item) (spare : Bool) :
    Turns s (.sent item spare) .silent s
      (.answer item spare (.byte (s.moment.now + s.options.config.responseTimeout.toNat)))
  /-- The item is acknowledged. -/
  | acknowledged {item : Item} {spare : Bool} {task : Line.Task} {pending : Bytes}
      (hpending : s.pending = Control.ack.byte :: pending) :
    Turns s (.answer item spare task) .silent { s with pending } (.acknowledged item)
  /-- The item is refused, which does not count. -/
  | spared {item : Item} {task : Line.Task} {pending : Bytes}
      (hpending : s.pending = Control.nak.byte :: pending) :
    Turns s (.answer item true task) .silent { s with pending } (.offer item false)
  /-- The item is refused. -/
  | refused {item : Item} {task : Line.Task} {pending : Bytes}
      (hpending : s.pending = Control.nak.byte :: pending)
      (hretries : s.session.retries + 1 < s.options.config.maxRetries.toNat) :
    Turns s (.answer item false task) .silent
      ({ s with pending }.mapSession Session.recordRetry) (.offer item false)
  /-- The item is not answered. -/
  | unanswered {item : Item} {spare : Bool} {deadline : Nat} {moment : Moment}
      (hpending : s.pending = []) (hlate : deadline ≤ moment.now)
      (hretries : s.session.retries + 1 < s.options.config.maxRetries.toNat) :
    Turns s (.answer item spare (.byte deadline))
      (.read (deadline - s.moment.now) (.ok []))
      ({ s with pending := [], moment }.mapSession Session.recordRetry) (.offer item spare)
  /-- The data is asked for after the header. -/
  | headerDone :
    Turns s (.acknowledged .header) .silent (s.mapSession Session.resetRetries) (.await .data)
  /-- The block is complete. -/
  | blockDone (piece : Bytes) :
    Turns s (.acknowledged (.block piece)) .silent (s.mapSession Session.resetRetries)
      (.counted piece)
  /-- The file is complete. -/
  | fileDone :
    Turns s (.acknowledged .endOfFile) .silent
      { s with
        session := s.session.resetRetries
        job := { s.job with files := s.job.files.tail, index := s.job.index + 1 } }
      .nextFile
  /-- Another piece of the file is fetched. -/
  | nextPiece (hcalm : s.moment.abort = false) : Turns s .nextPiece .silent s (.gather [])
  /-- The fetching is interrupted and tried again. -/
  | interrupted {piece : Bytes} {most : Nat} {e : IoError} {moment : Moment}
      (hkind : e.kind = .interrupted) :
    Turns s (.gather piece) (.fetch s.job.index most (.error e)) { s with moment } (.gather piece)
  /-- The piece is fetched. -/
  | gathered {piece data : Bytes} {most : Nat} {moment : Moment}
      (hmost : data = [] ∨ most ≤ data.length) :
    Turns s (.gather piece) (.fetch s.job.index most (.ok data)) { s with moment }
      (.gathered (piece ++ data.take most))
  /-- A part of the piece is fetched. -/
  | gather {piece data : Bytes} {most : Nat} {moment : Moment} (hdata : data ≠ []) :
    Turns s (.gather piece) (.fetch s.job.index most (.ok data)) { s with moment }
      (.gather (piece ++ data.take most))
  /-- The file has ended. -/
  | beginEndOfFile :
    Turns s (.gathered []) .silent
      (s.mapSession fun session =>
        ((session.finishFile s.job.sent).enter .awaitEotAck).resetRetries)
      (.offer .endOfFile true)
  /-- The piece is to be sent until it is acknowledged. -/
  | beginBlock {piece : Bytes} (hpiece : piece ≠ []) (hstreaming : s.streaming = false) :
    Turns s (.gathered piece) .silent (s.mapSession Session.resetRetries)
      (.offer (.block piece) false)
  /-- The piece has been written into a stream. -/
  | streamed {piece : Bytes} {moment : Moment} (hpiece : piece ≠ [])
      (hstreaming : s.streaming = true) :
    Turns s (.gathered piece)
      (.write (frame s (.block piece)) (.ok (frame s (.block piece)).length))
      { s with moment } (.drain piece)
  /-- Nothing was heard in the stream. -/
  | drained {piece : Bytes} {moment : Moment} (hpending : s.pending = []) :
    Turns s (.drain piece) (.read 0 (.ok [])) { s with pending := [], moment } (.counted piece)
  /-- The block is counted and reported. -/
  | counted {piece : Bytes} {moment : Moment} :
    Turns s (.counted piece) (.report (s.session.completeBlock piece.length).progress)
      { s with
        session := s.session.completeBlock piece.length
        moment
        job := { s.job with sent := s.job.sent + piece.length } }
      .nextPiece

/-- How an act of a sender fails. -/
inductive Breaks (s : Sender) : Step → Event → TransferError → Prop
  /-- The receiver has cancelled the transfer. -/
  | cancelled {step : Step} {pending : Bytes} (htask : step.task? ≠ none)
      (hpending : s.pending = Control.can.byte :: pending) :
    Breaks s step .silent .peerCancelled
  /-- The line cannot be read. -/
  | unread {step : Step} {timeout : Nat} {e : IoError} (htask : step.task? ≠ none)
      (hpending : s.pending = []) :
    Breaks s step (.read timeout (.error e)) (.channel e)
  /-- The line does not take what is written. -/
  | unwritten {step : Step} {item : Item} {reply : Except IoError Nat} {e : TransferError}
      (hitem : step.item? = some item) (hrefuses : Party.Refuses (frame s item) reply e) :
    Breaks s step (.write (frame s item) reply) e
  /-- The file cannot be read. -/
  | unfetched {piece : Bytes} {most : Nat} {e : IoError} (hkind : e.kind ≠ .interrupted) :
    Breaks s (.gather piece) (.fetch s.job.index most (.error e)) (.file e)
  /-- The last attempt to be invited was in vain. -/
  | lapse {invitation : Invitation} {deadline : Nat} (hpending : s.pending = [])
      (hretries : s.options.config.maxRetries.toNat ≤ s.session.retries + 1) :
    Breaks s (.listen invitation (.byte deadline)) (.read (deadline - s.moment.now) (.ok []))
      (.timeout invitation.stage (s.session.retries + 1))
  /-- An item is refused for the last time. -/
  | refused {item : Item} {task : Line.Task} {pending : Bytes}
      (hpending : s.pending = Control.nak.byte :: pending)
      (hretries : s.options.config.maxRetries.toNat ≤ s.session.retries + 1) :
    Breaks s (.answer item false task) .silent (.timeout (stage s item) (s.session.retries + 1))
  /-- An item is not answered for the last time. -/
  | unanswered {item : Item} {spare : Bool} {deadline : Nat} (hpending : s.pending = [])
      (hretries : s.options.config.maxRetries.toNat ≤ s.session.retries + 1) :
    Breaks s (.answer item spare (.byte deadline)) (.read (deadline - s.moment.now) (.ok []))
      (.timeout (stage s item) (s.session.retries + 1))

/-- How an act of a sender completes the transfer. -/
inductive Completes (s : Sender) : Step → Prop
  /-- The only file has been sent. -/
  | single (hfiles : s.job.files = []) (hprotocol : s.options.protocol = .xmodem) :
    Completes s .nextFile
  /-- The end of the batch is acknowledged. -/
  | batch : Completes s (.acknowledged .endOfBatch)

/-- Options and files with which nothing can be sent. -/
def Unfit (options : Options) (files : List FileHeader) : Prop :=
  options.check ≠ none ∨ options.protocol = .xmodem ∧ files.length ≠ 1

/-- What an act of a sender at a step leads to. -/
inductive Course (s : Sender) : Step → Event → Sender → Prop
  /-- It goes on. -/
  | turns {step step' : Step} {event : Event} {s' : Sender} (h : Turns s step event s' step') :
    Course s step event (s'.goto step')
  /-- It fails. -/
  | breaks {step : Step} {event : Event} {s' : Sender} {e : TransferError}
      (h : Breaks s step event e) : Course s step event (s'.fail e)
  /-- It completes the transfer. -/
  | completes {step : Step} {s' : Sender} (h : Completes s step)
      (htotal : s'.session.totalRetries = s.session.totalRetries) :
    Course s step .silent s'.complete
  /-- It gives the transfer up. -/
  | aborts {step : Step} (hhalts : step.halts = true) (habort : s.moment.abort = true) :
    Course s step .silent s.abort
  /-- It refuses to begin. -/
  | rejects {text : String} (hunfit : Unfit s.options s.job.files) :
    Course s .start .silent (s.reject (.invalidArgument text))

/-! ## Acts -/

section Acts

variable {s s' : Sender} {step step' : Step} {event : Event}

/-- A sender that counts a failed attempt goes on or fails. -/
theorem course_retry {stage : Stage}
    (hnext : s'.session.retries + 1 < s'.options.config.maxRetries.toNat →
      Turns s step event (s'.mapSession Session.recordRetry) step')
    (hfail : s'.options.config.maxRetries.toNat ≤ s'.session.retries + 1 →
      Breaks s step event (.timeout stage (s'.session.retries + 1))) :
    Course s step event (s'.retry stage step') := by
  unfold Party.retry
  dsimp only
  split
  · rename_i hretries
    exact .turns (hnext hretries)
  · rename_i hretries
    exact .breaks (hfail (Nat.le_of_not_lt hretries))

/-- A sender looks for a request to stop. -/
theorem ensures_unlessAborted {act : Action Sender} (hhalts : step.halts = true)
    (hact : s.moment.abort = false → act.Ensures (Course s step)) :
    (s.unlessAborted act).Ensures (Course s step) := by
  unfold Party.unlessAborted
  split
  · rename_i habort
    exact .aborts hhalts habort
  · rename_i hcalm
    exact hact (Bool.eq_false_iff.mpr hcalm)

/-- A sender writes an item. -/
theorem ensures_write_course {item : Item} (hitem : step.item? = some item)
    (hnext : ∀ moment, Turns s step (.write (frame s item) (.ok (frame s item).length))
      { s with moment } step') :
    (s.write (frame s item) step').Ensures (Course s step) := by
  apply Party.ensures_write_of_refuses
  · intro reply moment e hrefuses
    exact .breaks (.unwritten hitem hrefuses)
  · intro moment
    exact .turns (hnext moment)

/-- A sender that listens takes a byte from the queue, or reads from the line when the queue is
empty. -/
theorem ensures_listen_course {task : Line.Task} {again : Line.Task → Step}
    {heard : Option Bytes → Sender → Sender} (hplaced : s.Placed step)
    (htask : step.task? = some task) (hagain : again task = step)
    (hheard : ∀ byte pending, s.pending = byte :: pending →
      Course s step .silent (heard (some [byte]) { s with pending }))
    (hvain : ∀ timeout moment, s.pending = [] → task.look [] s.moment.now = .read timeout [] →
      task.hear [] [] moment.now = .settled ⟨none, []⟩ →
      Course s step (.read timeout (.ok [])) (heard none { s with pending := [], moment })) :
    (s.listen task again heard).Ensures (Course s step) := by
  have hsingle := hplaced.single htask
  have hne : step.task? ≠ none := by
    rw [htask]
    exact Option.some_ne_none task
  apply Party.ensures_listen_of_channel
  · intro r hlook
    obtain ⟨byte, pending, hpending, rfl⟩ := hsingle.look_settled hlook
    exact hheard byte pending hpending
  · intro timeout left e moment hlook
    exact .breaks (.unread hne (hsingle.look_read hlook).1)
  · intro timeout left arrived moment r hlook hhear
    obtain ⟨hpending, rfl⟩ := hsingle.look_read hlook
    obtain ⟨rfl, rfl⟩ := hsingle.hear_settled hhear
    rw [hpending] at hlook
    exact hvain timeout moment hpending hlook hhear
  · intro timeout left arrived moment task' left' hlook hhear
    obtain ⟨hpending, rfl⟩ := hsingle.look_read hlook
    obtain ⟨rfl, rfl⟩ := hsingle.hear_waiting hhear
    rw [hpending] at hlook
    rw [hagain]
    exact .turns (.arrival htask hpending hlook hhear)

/-- What a sender does with a byte that has come while it waits for an invitation. -/
theorem course_heardInvitation {invitation : Invitation} {task : Line.Task} {byte : UInt8}
    {pending : Bytes} (hpending : s.pending = byte :: pending) :
    Course s (.listen invitation task) .silent
      (heardInvitation invitation task (some [byte]) { s with pending }) := by
  have htask : Step.task? (.listen invitation task) ≠ none := Option.some_ne_none task
  unfold heardInvitation
  dsimp only
  cases hsignal : Control.ofByte? byte with
  | none =>
    refine .turns (.noise htask hpending ?_)
    intro signal hbyte
    rw [hsignal] at hbyte
    cases hbyte
  | some signal =>
    cases signal with
    | can =>
      rw [Control.ofByte?_eq_some_iff.mp hsignal] at hpending
      exact .breaks (.cancelled htask hpending)
    | nak | crcRequest | streamRequest => exact .turns (.invited hpending hsignal rfl)
    | ack | eot =>
      refine .turns (.noise htask hpending ?_)
      intro signal' hbyte
      rw [hsignal] at hbyte
      cases hbyte
      rfl

/-- What a sender does with a byte that has come while it waits for an answer. -/
theorem course_heardAnswer {item : Item} {spare : Bool} {task : Line.Task} {byte : UInt8}
    {pending : Bytes} (hpending : s.pending = byte :: pending) :
    Course s (.answer item spare task) .silent
      (heardAnswer item spare task (some [byte]) { s with pending }) := by
  have htask : Step.task? (.answer item spare task) ≠ none := Option.some_ne_none task
  unfold heardAnswer
  dsimp only
  cases hsignal : Control.ofByte? byte with
  | none =>
    refine .turns (.noise htask hpending ?_)
    intro signal hbyte
    rw [hsignal] at hbyte
    cases hbyte
  | some signal =>
    have hbyte := Control.ofByte?_eq_some_iff.mp hsignal
    cases signal with
    | can =>
      rw [hbyte] at hpending
      exact .breaks (.cancelled htask hpending)
    | ack =>
      rw [hbyte] at hpending
      exact .turns (.acknowledged hpending)
    | nak =>
      rw [hbyte] at hpending
      cases spare with
      | true => exact .turns (.spared hpending)
      | false => exact course_retry (.refused hpending) (.refused hpending)
    | eot | crcRequest | streamRequest =>
      refine .turns (.noise htask hpending ?_)
      intro signal' hbyte'
      rw [hsignal] at hbyte'
      cases hbyte'
      rfl

/-- What a sender does with a byte that has come in the middle of a stream. -/
theorem course_heardInStream {piece : Bytes} {byte : UInt8} {pending : Bytes}
    (hpending : s.pending = byte :: pending) :
    Course s (.drain piece) .silent (heardInStream piece (some [byte]) { s with pending }) := by
  have htask : Step.task? (.drain piece) ≠ none := Option.some_ne_none _
  unfold heardInStream
  dsimp only
  split
  · rename_i hcan
    rw [hcan] at hpending
    exact .breaks (.cancelled htask hpending)
  · rename_i hcan
    refine .turns (.noise htask hpending ?_)
    intro signal hbyte
    rw [Control.ofByte?_eq_some_iff] at hbyte
    simp only [Step.heeds, decide_eq_false_iff_not]
    rintro rfl
    exact hcan hbyte

/-- What a sender does when it looks at options and files. -/
theorem course_start : Course s .start .silent (start s) := by
  unfold start
  cases hcheck : s.options.check with
  | some e =>
    obtain ⟨text, rfl⟩ := Options.eq_invalidArgument_of_check hcheck
    exact .rejects (.inl (by simp [hcheck]))
  | none =>
    dsimp only
    split
    · rename_i hfiles
      exact .rejects (.inr hfiles)
    · rename_i hfiles
      refine .turns (.start hcheck ?_)
      intro hprotocol
      by_contra hlength
      exact hfiles ⟨hprotocol, hlength⟩

/-- What a sender does when it takes up the next file. -/
theorem course_nextFile : Course s .nextFile .silent (nextFile s) := by
  unfold nextFile
  cases hfiles : s.job.files with
  | cons file files => exact .turns (.nextFile (by simp [hfiles]))
  | nil =>
    cases hprotocol : s.options.protocol with
    | ymodem => exact .turns (.endBatch hfiles hprotocol)
    | xmodem => exact .completes (.single hfiles hprotocol) rfl

/-- What a sender does when it begins the data of a file. -/
theorem course_beginData {invitation : Invitation} (hplaced : s.Placed (.invited invitation))
    (hdata : invitation = .data ∨ invitation = .file ∧ s.options.protocol = .xmodem) :
    Course s (.invited invitation) .silent (beginData s) := by
  unfold beginData
  cases hfiles : s.job.files with
  | nil =>
    refine absurd hfiles (hplaced.files_ne_nil ?_)
    rcases hdata with rfl | ⟨rfl, -⟩ <;> rfl
  | cons header headers => exact .turns (.beginData hfiles hdata)

/-- What a sender does when it has been invited. -/
theorem course_invited {invitation : Invitation} (hplaced : s.Placed (.invited invitation)) :
    Course s (.invited invitation) .silent (invited s invitation) := by
  cases invitation with
  | data => exact course_beginData hplaced (.inl rfl)
  | endOfBatch => exact .turns .beginEndOfBatch
  | file =>
    unfold invited
    cases hprotocol : s.options.protocol with
    | xmodem => exact course_beginData hplaced (.inr ⟨rfl, hprotocol⟩)
    | ymodem =>
      dsimp only
      split
      · rename_i hstreaming
        exact .turns (.beginStream hprotocol hstreaming)
      · rename_i hstreaming
        exact .turns (.beginHeader hprotocol (Bool.eq_false_iff.mpr hstreaming))

/-- What a sender does after an item has been acknowledged. -/
theorem course_acknowledged (item : Item) :
    Course s (.acknowledged item) .silent (acknowledged s item) := by
  cases item with
  | header => exact .turns .headerDone
  | block piece => exact .turns (.blockDone piece)
  | endOfFile => exact .turns .fileDone
  | endOfBatch => exact .completes .batch rfl

/-- What a sender does with what it has fetched. -/
theorem course_fetched {piece : Bytes} {most : Nat} (reply : Except IoError Bytes)
    (moment : Moment) :
    Course s (.gather piece) (.fetch s.job.index most reply)
      (fetched { s with moment } piece most reply) := by
  unfold fetched
  cases reply with
  | error e =>
    dsimp only
    split
    · rename_i hkind
      exact .turns (.interrupted hkind)
    · rename_i hkind
      exact .breaks (.unfetched hkind)
  | ok data =>
    dsimp only
    split
    · rename_i hmost
      exact .turns (.gathered (hmost.imp_left List.isEmpty_iff.mp))
    · rename_i hmost
      refine .turns (.gather ?_)
      rintro rfl
      exact hmost (.inl rfl)

/-- What a sender does with a piece of the file. -/
theorem ensures_gathered (piece : Bytes) :
    (gathered s piece).Ensures (Course s (.gathered piece)) := by
  unfold gathered
  split
  · rename_i hpiece
    rw [List.isEmpty_iff.mp hpiece]
    exact .turns .beginEndOfFile
  · rename_i hpiece
    have hne : piece ≠ [] := by
      rintro rfl
      exact hpiece rfl
    split
    · rename_i hstreaming
      exact ensures_write_course rfl fun _ => .streamed hne hstreaming
    · rename_i hstreaming
      exact .turns (.beginBlock hne (Bool.eq_false_iff.mpr hstreaming))

/-- What the steps of a sender lead to. -/
theorem ensures_course (hplaced : s.Placed step) :
    (Sender.step s step).Ensures (Course s step) := by
  cases step with
  | start => exact course_start
  | nextFile => exact course_nextFile
  | await invitation => exact .turns (.await invitation)
  | attempt invitation =>
    exact ensures_unlessAborted rfl fun hcalm => .turns (.attempt invitation hcalm)
  | listen invitation task =>
    obtain ⟨deadline, rfl⟩ := hplaced.timed task rfl
    refine ensures_listen_course hplaced rfl rfl ?_ ?_
    · intro byte pending hpending
      exact course_heardInvitation hpending
    · intro timeout moment hpending hlook hhear
      cases hlook
      exact course_retry (.lapse hpending (Line.Task.deadline_le_of_hear hhear)) (.lapse hpending)
  | invited invitation => exact course_invited hplaced
  | streamHeader =>
    exact ensures_unlessAborted rfl fun hcalm =>
      ensures_write_course rfl fun _ => .streamHeader hcalm
  | offer item spare =>
    exact ensures_unlessAborted rfl fun hcalm => ensures_write_course rfl fun _ => .offer hcalm
  | sent item spare => exact .turns (.sent item spare)
  | answer item spare task =>
    obtain ⟨deadline, rfl⟩ := hplaced.timed task rfl
    refine ensures_listen_course hplaced rfl rfl ?_ ?_
    · intro byte pending hpending
      exact course_heardAnswer hpending
    · intro timeout moment hpending hlook hhear
      cases hlook
      exact course_retry (.unanswered hpending (Line.Task.deadline_le_of_hear hhear))
        (.unanswered hpending)
  | acknowledged item => exact course_acknowledged item
  | nextPiece => exact ensures_unlessAborted rfl fun hcalm => .turns (.nextPiece hcalm)
  | gather piece => exact course_fetched
  | gathered piece => exact ensures_gathered piece
  | drain piece =>
    refine ensures_listen_course hplaced rfl rfl ?_ ?_
    · intro byte pending hpending
      exact course_heardInStream hpending
    · intro timeout moment hpending hlook _
      cases hlook
      exact .turns (.drained hpending)
  | counted piece =>
    intro moment
    exact .turns .counted

/-- A piece of the file is written only into a stream. -/
theorem ensures_streaming (s : Sender) (piece : Bytes) :
    (gathered s piece).Ensures fun event _ => event.writes = true → s.streaming = true := by
  unfold gathered
  split
  · exact nofun
  · split
    · rename_i hstreaming
      exact fun _ _ _ => hstreaming
    · exact nofun

theorem ensures_streaming_of_writes (s : Sender) (step : Step) :
    (Sender.step s step).Ensures fun event _ => ∀ piece, step = .gathered piece →
      event.writes = true → s.streaming = true := by
  cases step with
  | gathered piece => exact (ensures_streaming s piece).mono fun _ _ h _ _ => h
  | _ => exact Action.ensures_of_forall (fun _ _ _ => nofun) _

theorem Turns.options_eq (h : Turns s step event s' step') : s'.options = s.options := by
  cases h <;> rfl

/-- A sender gets from fitting steps to fitting steps only. -/
theorem Turns.placed (h : Turns s step event s' step') (hplaced : s.Placed step) :
    s'.Placed step' := by
  have hfiles := hplaced.files_ne_nil
  cases h with
  | noise | arrival => exact ⟨hplaced.files_ne_nil, hplaced.timed⟩
  | start | endBatch | fileDone => exact ⟨nofun, nofun⟩
  | nextFile hne => exact ⟨fun _ => hne, nofun⟩
  | beginData hcons =>
    refine ⟨fun _ => ?_, nofun⟩
    simp [hcons]
  | attempt | sent =>
    refine ⟨hfiles, ?_⟩
    rintro task ⟨⟩
    exact ⟨_, rfl⟩
  | _ => exact ⟨hfiles, nofun⟩

/-- An act of a sender goes on with a step or brings it to an end. -/
theorem Course.turns_or_parted {next : Sender} (h : Course s step event next) :
    (∃ s' step', next = s'.goto step' ∧ Turns s step event s' step') ∨ next.Parted := by
  cases h with
  | turns h => exact .inl ⟨_, _, rfl, h⟩
  | breaks => exact .inr (Party.parted_fail _ _)
  | completes => exact .inr (Party.parted_complete _)
  | aborts => exact .inr (Party.parted_abort _)
  | rejects => exact .inr (Party.parted_reject _ _)

/-- What an act of a sender leads to, as long as it is at a step that fits. -/
theorem ensures_act_of_course {post : Event → Sender → Prop}
    (hplaced : ∀ step, s.phase = .doing step → s.Placed step)
    (hcourse : ∀ step event next, s.phase = .doing step → Course s step event next →
      post event next)
    (hcancel : ∀ ending reply moment, s.phase = .cancelling ending →
      post (.write [Control.can.byte, Control.can.byte] reply)
        { s with moment, phase := .over ending }) : (Sender.act s).Ensures post := by
  refine Party.ensures_act ?_ hcancel
  intro step hphase
  refine (ensures_course (hplaced step hphase)).mono ?_
  exact fun event next h => hcourse step event next hphase h

/-! ## Moments -/

theorem moment_beginData (s : Sender) : (beginData s).moment = s.moment := by
  unfold beginData
  split <;> rfl

theorem moment_invited (s : Sender) (invitation : Invitation) :
    (invited s invitation).moment = s.moment := by
  cases invitation with
  | file =>
    unfold invited
    dsimp only
    split
    · exact moment_beginData s
    · split <;> rfl
  | data => exact moment_beginData s
  | endOfBatch => rfl

theorem moment_heardInvitation (invitation : Invitation) (task : Line.Task)
    (heard : Option Bytes) (s : Sender) :
    (heardInvitation invitation task heard s).moment = s.moment := by
  unfold heardInvitation
  split
  · split
    · rfl
    · rw [negotiate?_eq]
      cases mode? _ <;> rfl
    · rfl
  · exact Party.moment_retry s _ _

theorem moment_heardAnswer (item : Item) (spare : Bool) (task : Line.Task)
    (heard : Option Bytes) (s : Sender) :
    (heardAnswer item spare task heard s).moment = s.moment := by
  unfold heardAnswer refused
  split
  · split
    · rfl
    · rfl
    · split
      · rfl
      · exact Party.moment_retry s _ _
    · rfl
  · exact Party.moment_retry s _ _

theorem moment_heardInStream (piece : Bytes) (heard : Option Bytes) (s : Sender) :
    (heardInStream piece heard s).moment = s.moment := by
  unfold heardInStream
  split
  · split <;> rfl
  · rfl

theorem moment_fetched (s : Sender) (piece : Bytes) (most : Nat) (reply : Except IoError Bytes) :
    (fetched s piece most reply).moment = s.moment := by
  unfold fetched
  cases reply with
  | error e =>
    dsimp only
    split <;> rfl
  | ok data =>
    dsimp only
    split <;> rfl

/-- A sender always knows the moment of the last reply. -/
theorem attentive_step (s : Sender) (step : Step) : (Sender.step s step).Attentive s.moment := by
  cases step with
  | start =>
    simp only [Sender.step, Action.Attentive, start]
    split
    · rfl
    · split <;> rfl
  | nextFile =>
    simp only [Sender.step, Action.Attentive, nextFile]
    split <;> rfl
  | attempt | nextPiece => exact Party.attentive_unlessAborted rfl
  | streamHeader | offer =>
    exact Party.attentive_unlessAborted (Party.attentive_write s _ _)
  | listen => exact Party.attentive_listen (moment_heardInvitation _ _)
  | answer => exact Party.attentive_listen (moment_heardAnswer _ _ _)
  | drain => exact Party.attentive_listen (moment_heardInStream _)
  | invited invitation => exact moment_invited s invitation
  | acknowledged item => cases item <;> rfl
  | gather piece =>
    intro reply moment
    exact moment_fetched _ _ _ _
  | gathered piece =>
    unfold Sender.step gathered
    dsimp only
    split
    · rfl
    · split
      · exact Party.attentive_write s _ _
      · rfl
  | counted => exact fun _ => rfl
  | await | sent => rfl

theorem attentive_act (s : Sender) : (Sender.act s).Attentive s.moment :=
  Party.attentive_act fun step _ => attentive_step s step

end Acts

end Sender

end BlockTransfer

import BlockTransfer.Action
import BlockTransfer.Line
import BlockTransfer.Options

/-!
# The parties of a transfer

What sender and receiver have in common: options, session, the block check in force, the queue
of bytes from the line, and the ways in which a run ends. A party that gives up writes the cancel
signal twice, unless the channel failed or the peer has cancelled; whether that last write
succeeds changes nothing any more.
-/

namespace BlockTransfer

/-- What a party is about to do: a step of its own kind `φ`, or one of the two that end every
run. -/
inductive Phase (φ : Type)
  /-- A step of the transfer. -/
  | doing (step : φ)
  /-- The peer is told to give up, then the transfer is over. -/
  | cancelling (ending : Ending)
  /-- The transfer is over. -/
  | over (ending : Ending)
  deriving DecidableEq

/-- A party that keeps `δ` and takes steps `φ`. -/
structure Party (δ φ : Type) where
  /-- Protocol, variant and settings. -/
  options : Options
  /-- The session. -/
  session : Session
  /-- The block check in force. -/
  trailer : Trailer
  /-- Whether blocks follow each other without answers. -/
  streaming : Bool
  /-- The bytes that have arrived and not been used yet. -/
  pending : Bytes
  /-- The moment of the last reply. -/
  moment : Moment
  /-- What this kind of party keeps. -/
  job : δ
  /-- What comes next. -/
  phase : Phase φ
  deriving DecidableEq

namespace Party

variable {δ φ : Type}

/-- A party at the start of its session. -/
def new (role : Role) (options : Options) (moment : Moment) (job : δ) (first : φ) : Party δ φ where
  options := options
  session := { role, started := moment.now }
  trailer := options.variant.trailer
  streaming := options.variant.isStreaming
  pending := []
  moment := moment
  job := job
  phase := .doing first

/-- Goes on with a step. -/
def goto (s : Party δ φ) (step : φ) : Party δ φ :=
  { s with phase := .doing step }

/-- Changes the session. -/
def mapSession (s : Party δ φ) (f : Session → Session) : Party δ φ :=
  { s with session := f s.session }

/-- Ends with success. -/
def complete (s : Party δ φ) : Party δ φ :=
  let session := s.session.enter .done
  { s with session, phase := .over (.ok (.completed (session.summary s.moment.now))) }

/-- Ends because a stop was requested. -/
def abort (s : Party δ φ) : Party δ φ :=
  { s with session := s.session.enter .aborted, phase := .cancelling (.ok .aborted) }

/-- Ends with an error. -/
def fail (s : Party δ φ) (e : TransferError) : Party δ φ :=
  { s with
    session := s.session.enter .failed
    phase := if e.notifiesPeer then .cancelling (.error e) else .over (.error e) }

/-- Ends with an error before anything was exchanged. -/
def reject (s : Party δ φ) (e : TransferError) : Party δ φ :=
  { s with phase := .over (.error e) }

/-- Counts a failed attempt at `stage`, and goes on with a step unless it was the last one. -/
def retry (s : Party δ φ) (stage : Stage) (step : φ) : Party δ φ :=
  let s := s.mapSession Session.recordRetry
  -- The failure just counted is the last one allowed when the limit is reached.
  if s.session.retries < s.options.config.maxRetries.toNat then s.goto step
  else s.fail (.timeout stage s.session.retries)

/-- Goes on unless a stop is requested. -/
def unlessAborted (s : Party δ φ) (act : Action (Party δ φ)) : Action (Party δ φ) :=
  if s.moment.abort then .silent s.abort else act

/-- Writes bytes, then goes on with a step. -/
def write (s : Party δ φ) (data : Bytes) (step : φ) : Action (Party δ φ) :=
  .write data fun reply moment =>
    let s := { s with moment }
    match reply with
    | .error e => s.fail (.channel e)
    | .ok taken =>
      if taken = data.length then s.goto step else s.fail (.shortWrite data.length taken)

/-- Does the next thing for a task on the line: goes on with `again` while the task is not
settled, and with `heard` once it is. -/
def listen (s : Party δ φ) (task : Line.Task) (again : Line.Task → φ)
    (heard : Option Bytes → Party δ φ → Party δ φ) : Action (Party δ φ) :=
  match task.look s.pending s.moment.now with
  | .settled r => .silent (heard r.result { s with pending := r.pending })
  | .read timeout pending =>
    .read timeout fun reply moment =>
      let s := { s with pending, moment }
      match reply with
      | .error e => s.fail (.channel e)
      | .ok arrived =>
        match task.hear pending arrived moment.now with
        | .settled r => heard r.result { s with pending := r.pending }
        | .waiting task pending => { s with pending }.goto (again task)

/-- Reports progress, then goes on with a step. -/
def report (s : Party δ φ) (step : φ) : Action (Party δ φ) :=
  .report s.session.progress fun moment => { s with moment }.goto step

/-- The last acts of a run. -/
def act (own : φ → Action (Party δ φ)) (s : Party δ φ) : Action (Party δ φ) :=
  match s.phase with
  | .doing step => own step
  | .cancelling ending =>
    -- The ending stands, whether or not the peer hears of it.
    .write [Control.can.byte, Control.can.byte] fun _ moment =>
      { s with moment, phase := .over ending }
  | .over ending => .stop ending

end Party

end BlockTransfer

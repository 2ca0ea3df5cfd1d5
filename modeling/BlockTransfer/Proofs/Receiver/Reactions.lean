import BlockTransfer.Proofs.Journey
import BlockTransfer.Proofs.Receiver.Course
import BlockTransfer.Proofs.Receiver.Filing
import BlockTransfer.Proofs.Seat

/-!
# What a receiver does with what it hears

Between two readings a receiver waits for the next leg of the sender's journey, or it is in the
middle of a frame. For each leg that it may hear there, the next one or the latest one once more,
a theorem says what it answers and in which state it waits again.

## Main definitions

* `Receiver.Place`: between files, or in a file with the payloads accepted so far.
* `Receiver.Ledger` and `Receiver.Known`: what is known of a receiver that is not told by its
  step.
* `Receiver.Listens`, `Receiver.Collects`, `Receiver.Done`: the states between readings.
* `Receiver.answers`: what is answered to the next leg.

## Main results

* `Receiver.settles_start`: what a receiver asks for first.
* `Receiver.settles_judge`, `Receiver.settles_judge_first_end`: the reactions to the next leg.
* `Receiver.settles_judge_repeated`: the reaction to a leg that has been accepted already.
* `Receiver.settles_of_silence`: the reaction to a reading in vain.
-/

namespace BlockTransfer.Receiver

open Seat (Settles)

/-! ## States between readings -/

/-- Where a receiver is on the journey. -/
inductive Place
  /-- Before the first file or between two files. -/
  | between
  /-- In a file with this header, after blocks with these payloads. An end mark may have been
  refused already. -/
  | inFile (header : Option FileHeader) (payloads : List Bytes) (endSeen : Bool)

namespace Place

/-- The header of the current file. -/
def header : Place → Option FileHeader
  | .between => none
  | .inFile header _ _ => header

/-- The payloads of the current file. -/
def payloads : Place → List Bytes
  | .between => []
  | .inFile _ payloads _ => payloads

/-- Whether an end mark has been refused. -/
def endSeen : Place → Bool
  | .between => false
  | .inFile _ _ endSeen => endSeen

/-- The stage of a route. Without headers the first block is awaited from the start. -/
def stage (protocol : Protocol) : Place → Option Nat
  | .between =>
    match protocol with
    | .xmodem => some 0
    | .ymodem => none
  | .inFile _ payloads _ => some payloads.length

/-- Whether a receiver that hears nothing asks for the data of a file with the signal with which
it asks for blocks. -/
def asks (protocol : Protocol) : Place → Bool
  | .between => true
  | .inFile _ payloads _ => protocol = .ymodem ∧ payloads = []

/-- The stage of a route is the number of payloads. -/
theorem length_payloads {protocol : Protocol} {place : Place} {count : Nat}
    (h : place.stage protocol = some count) : place.payloads.length = count := by
  cases place with
  | inFile =>
    cases h
    rfl
  | between =>
    cases protocol with
    | xmodem =>
      cases h
      rfl
    | ymodem => cases h

/-- The place after a leg. -/
def after (place : Place) : Leg → Place
  | .header file => .inFile (some file.received) [] false
  | .data block => .inFile place.header (place.payloads ++ [block.payload]) place.endSeen
  | .endOfFile | .endOfBatch => .between

/-- An end mark that has been refused is followed by another one. -/
theorem endSeen_after (place : Place) {leg : Leg}
    (h : place.endSeen = false ∨ leg.isData = false) : (place.after leg).endSeen = false := by
  cases leg with
  | header => rfl
  | endOfFile => rfl
  | endOfBatch => rfl
  | data block =>
    rcases h with hseen | hdata
    · exact hseen
    · cases hdata

end Place

/-- What is known of a receiver, whatever it is about to do. -/
structure Ledger where
  /-- The options. -/
  options : Options
  /-- The bytes that have arrived and not been used yet. -/
  pending : Bytes
  /-- The number of blocks that are counted. -/
  blocks : Nat
  /-- The number of failed attempts. -/
  retries : Nat
  /-- The files that are complete. -/
  files : List (ReceivedFile × Bytes)

/-- The ledger after a leg. -/
def Ledger.after (l : Ledger) (place : Place) (leg : Leg) : Ledger :=
  match leg with
  | .header _ | .endOfBatch => l
  | .data _ => { l with blocks := l.blocks + 1 }
  | .endOfFile =>
    let data := contents (declaredLength place.header) l.options.pad place.payloads
    { l with files := l.files ++ [(⟨place.header, data.length⟩, data)] }

theorem Ledger.pending_after (l : Ledger) (place : Place) (leg : Leg) :
    (l.after place leg).pending = l.pending := by
  cases leg <;> rfl

theorem Ledger.retries_after (l : Ledger) (place : Place) (leg : Leg) :
    (l.after place leg).retries = l.retries := by
  cases leg <;> rfl

/-- A receiver is as the ledger says, and no stop has been requested. -/
structure Matches (l : Ledger) (s : Seat Receiver) : Prop where
  options : s.party.options = l.options
  calm : s.party.moment.abort = false
  handshake : s.party.job.handshake = l.options.variant.handshake
  trailer : s.party.trailer = l.options.variant.trailer
  streaming : s.party.streaming = l.options.variant.isStreaming
  pending : s.party.pending = l.pending
  blocks : s.party.session.totalBlocks = l.blocks
  retries : s.party.session.totalRetries = l.retries
  files : s.desk.sink.files = l.files

/-- A receiver is in the file of its place, or it has closed all files. -/
inductive InPlace : Place → Seat Receiver → Prop
  | between {s : Seat Receiver} (hclosed : s.desk.sink.current = none) : InPlace .between s
  | inFile {header : Option FileHeader} {payloads : List Bytes} {endSeen : Bool}
      {s : Seat Receiver} (hfiling : Filing header payloads payloads.length s.party)
      (hseen : s.party.job.endSeen = endSeen)
      (hstored : s.desk.sink.current = some (stored (declaredLength header) payloads)) :
      InPlace (.inFile header payloads endSeen) s

/-- What is known of a receiver at a place. -/
structure Known (l : Ledger) (place : Place) (s : Seat Receiver) : Prop where
  matches_ledger : Matches l s
  in_place : InPlace place s

/-- The purpose for which a receiver listens at a place. -/
inductive Serving : Place → Purpose → Prop
  | between {stage : Stage} : Serving .between (.solicited stage)
  | inFile {header : Option FileHeader} {payloads : List Bytes} {endSeen : Bool} :
      Serving (.inFile header payloads endSeen) .data

/-- A receiver waits for the first byte of a leg. -/
structure Listens (l : Ledger) (place : Place) (s : Seat Receiver) : Prop where
  known : Known l place s
  step : ∃ purpose deadline, Serving place purpose ∧
    s.party.phase = .doing (.listen purpose (.byte deadline))

/-- A receiver waits for the rest of a frame of some size. -/
structure Collects (l : Ledger) (place : Place) (size : BlockSize) (s : Seat Receiver) :
    Prop where
  known : Known l place s
  step : ∃ purpose idle deadline, Serving place purpose ∧
    let needed := Block.frameLength size l.options.variant.trailer - 1
    s.party.phase =
      .doing (.collect purpose [size.marker] needed (.exact needed idle deadline))

/-- A receiver is through. -/
structure Done (l : Ledger) (s : Seat Receiver) : Prop where
  known : Matches l s
  closed : s.desk.sink.current = none
  phase : ∃ summary, s.party.phase = .over (.ok (.completed summary)) ∧
    summary.blocks = l.blocks ∧ summary.retries = l.retries

/-- The leg that brought a receiver to its place. -/
inductive Follows (protocol : Protocol) : Option Leg → Place → Prop
  | start : Follows protocol none .between
  | header {file : FileHeader} {header : Option FileHeader} {endSeen : Bool}
      (hymodem : protocol = .ymodem) :
      Follows protocol (some (.header file)) (.inFile header [] endSeen)
  | data {block : Block} {header : Option FileHeader} {payloads : List Bytes} {endSeen : Bool}
      (hnumber : block.number = UInt8.ofNat (payloads.length + 1)) :
      Follows protocol (some (.data block))
        (.inFile header (payloads ++ [block.payload]) endSeen)
  | endOfFile (hymodem : protocol = .ymodem) : Follows protocol (some .endOfFile) .between

/-- The place after a leg of a route, unless the route ends, is one that the leg brings to. -/
theorem Follows.after {protocol : Protocol} {place : Place} {leg : Leg} {legs : List Leg}
    (hroute : Route protocol (place.stage protocol) (leg :: legs)) (hlegs : legs ≠ []) :
    Follows protocol (some leg) (place.after leg) := by
  generalize hstage : place.stage protocol = stage at hroute
  cases hroute with
  | @data count block legs hnumber hrest =>
    refine .data ?_
    rw [Place.length_payloads hstage]
    exact hnumber
  | header hymodem => exact .header hymodem
  | endOfBatch => exact absurd rfl hlegs
  | endOfFile hrest =>
    cases hrest with
    | header hymodem => exact .endOfFile hymodem
    | endOfBatch hymodem => exact .endOfFile hymodem
    | done => exact absurd rfl hlegs

/-- After a header or the end of a file the receiver asks for what comes next. -/
theorem Follows.asks {protocol : Protocol} {place : Place} {leg : Leg}
    (h : Follows protocol (some leg) place) (hdata : leg.isData = false) :
    place.asks protocol = true := by
  cases h with
  | header hymodem => exact decide_eq_true ⟨hymodem, rfl⟩
  | data => cases hdata
  | endOfFile => rfl

/-- What a receiver answers to the next leg. -/
def answers (options : Options) : Leg → List Control
  | .header _ =>
    if options.variant.isStreaming then [options.variant.handshake]
    else [.ack, options.variant.handshake]
  | .data _ => if options.variant.isStreaming then [] else [.ack]
  | .endOfFile =>
    match options.protocol with
    | .xmodem => [.ack]
    | .ymodem => [.ack, options.variant.handshake]
  | .endOfBatch => [.ack]

/-- What comes over the line with a leg. -/
def incomingOf (leg : Leg) : Incoming :=
  match leg.block? with
  | some block => .block block
  | none => .endOfFile

/-- Signals as they are written. -/
def writes (signals : List Control) : List Bytes :=
  signals.map fun signal => [signal.byte]

/-- A receiver has accepted a leg. It has answered, and it waits for the legs that are left or is
through. -/
structure Accepts (l : Ledger) (place : Place) (leg : Leg) (legs : List Leg) (said : List Bytes)
    (s : Seat Receiver) : Prop where
  said_eq : said = writes (answers l.options leg)
  next : legs = [] ∧ Done (l.after place leg) s ∨
    legs ≠ [] ∧ Listens (l.after place leg) (place.after leg) s

section

variable {l : Ledger} {place : Place} {p : Receiver} {d : Desk}

namespace Matches

theorem goto (h : Matches l ⟨p, d⟩) (step : Step) : Matches l ⟨p.goto step, d⟩ :=
  ⟨h.options, h.calm, h.handshake, h.trailer, h.streaming, h.pending, h.blocks, h.retries,
    h.files⟩

theorem reply (h : Matches l ⟨p, d⟩) {moment : Moment} (hcalm : moment.abort = false) :
    Matches l ⟨{ p with moment }, d⟩ :=
  ⟨h.options, hcalm, h.handshake, h.trailer, h.streaming, h.pending, h.blocks, h.retries,
    h.files⟩

theorem mapSession (h : Matches l ⟨p, d⟩) (f : Session → Session)
    (hblocks : (f p.session).totalBlocks = p.session.totalBlocks)
    (hretries : (f p.session).totalRetries = p.session.totalRetries) :
    Matches l ⟨p.mapSession f, d⟩ :=
  ⟨h.options, h.calm, h.handshake, h.trailer, h.streaming, h.pending, hblocks.trans h.blocks,
    hretries.trans h.retries, h.files⟩

/-- What is known of the job is the signal with which blocks are asked for. -/
theorem job (h : Matches l ⟨p, d⟩) (job : Job) (hjob : job.handshake = p.job.handshake) :
    Matches l ⟨{ p with job }, d⟩ :=
  ⟨h.options, h.calm, hjob.trans h.handshake, h.trailer, h.streaming, h.pending, h.blocks,
    h.retries, h.files⟩

/-- What is known of the sink are the complete files. -/
theorem current (h : Matches l ⟨p, d⟩) (current : Option Bytes) :
    Matches l ⟨p, { d with sink := { d.sink with current } }⟩ :=
  ⟨h.options, h.calm, h.handshake, h.trailer, h.streaming, h.pending, h.blocks, h.retries,
    h.files⟩

theorem queue (h : Matches l ⟨p, d⟩) (pending : Bytes) :
    Matches { l with pending } ⟨{ p with pending }, d⟩ :=
  ⟨h.options, h.calm, h.handshake, h.trailer, h.streaming, rfl, h.blocks, h.retries, h.files⟩

end Matches

/-- The place of a receiver depends on its job and on the numbers of its session. -/
theorem InPlace.congr {p' : Receiver} (h : InPlace place ⟨p, d⟩) (hjob : p'.job = p.job)
    (hnumber : p'.session.blockNumber = p.session.blockNumber)
    (hcount : p'.session.fileBlocks = p.session.fileBlocks) : InPlace place ⟨p', d⟩ := by
  cases h with
  | between hclosed => exact .between hclosed
  | inFile hfiling hseen hstored =>
    have hdelivered := congrArg Job.delivered hjob
    have hheld := congrArg Job.held hjob
    have hheader := congrArg Job.header hjob
    refine .inFile ⟨hheader.trans hfiling.header_eq, hdelivered.trans hfiling.delivered_eq,
      hheld.trans hfiling.held_eq, hnumber.trans hfiling.number_eq,
      hcount.trans hfiling.count_eq⟩ ?_ hstored
    exact (congrArg Job.endSeen hjob).trans hseen

namespace Known

theorem goto (h : Known l place ⟨p, d⟩) (step : Step) : Known l place ⟨p.goto step, d⟩ :=
  ⟨h.matches_ledger.goto step, h.in_place.congr rfl rfl rfl⟩

theorem reply (h : Known l place ⟨p, d⟩) {moment : Moment} (hcalm : moment.abort = false) :
    Known l place ⟨{ p with moment }, d⟩ :=
  ⟨h.matches_ledger.reply hcalm, h.in_place.congr rfl rfl rfl⟩

theorem mapSession (h : Known l place ⟨p, d⟩) (f : Session → Session)
    (hblocks : (f p.session).totalBlocks = p.session.totalBlocks)
    (hretries : (f p.session).totalRetries = p.session.totalRetries)
    (hnumber : (f p.session).blockNumber = p.session.blockNumber)
    (hcount : (f p.session).fileBlocks = p.session.fileBlocks) :
    Known l place ⟨p.mapSession f, d⟩ :=
  ⟨h.matches_ledger.mapSession f hblocks hretries, h.in_place.congr rfl hnumber hcount⟩

theorem queue (h : Known l place ⟨p, d⟩) (pending : Bytes) :
    Known { l with pending } place ⟨{ p with pending }, d⟩ :=
  ⟨h.matches_ledger.queue pending, h.in_place.congr rfl rfl rfl⟩

/-- Between files the sink has no open file. -/
theorem closed (h : Known l .between ⟨p, d⟩) : d.sink.current = none := by
  have hplace := h.in_place
  cases hplace with
  | between hclosed => exact hclosed

end Known

theorem act_of_phase {step : Step} (h : p.phase = .doing step) :
    act p = Receiver.step p step := by
  simp only [act, Party.act, h]

theorem act_of_listen {purpose : Purpose} {task : Line.Task}
    (h : p.phase = .doing (.listen purpose task)) :
    act p = p.listen task (.listen purpose) (heardStart purpose) :=
  act_of_phase h

theorem act_of_collect {purpose : Purpose} {frame : Bytes} {needed : Nat} {task : Line.Task}
    (h : p.phase = .doing (.collect purpose frame needed task)) :
    act p = p.listen task (.collect purpose frame needed) (heardRest purpose frame needed) :=
  act_of_phase h

/-! ## Going on to the next reading -/

/-- A receiver that is through is done. -/
theorem done_complete (h : Matches l ⟨p, d⟩) (hclosed : d.sink.current = none) :
    Done l ⟨p.complete, d⟩ where
  known := ⟨h.options, h.calm, h.handshake, h.trailer, h.streaming, h.pending, h.blocks,
    h.retries, h.files⟩
  closed := hclosed
  phase := ⟨_, rfl, h.blocks, h.retries⟩

/-- A wait for the first byte of a leg begins. -/
theorem settles_expect {purpose : Purpose} (h : Known l place ⟨p, d⟩)
    (hpurpose : Serving place purpose) :
    Settles act (fun said s => said = [] ∧ Listens l place s) ⟨p.goto (.expect purpose), d⟩ :=
  .silent rfl (.here ⟨rfl, (h.goto _).goto _, purpose, _, hpurpose, rfl⟩)

/-- The next block of the file is awaited. -/
theorem settles_nextBlock {header : Option FileHeader} {payloads : List Bytes} {endSeen : Bool}
    (h : Known l (.inFile header payloads endSeen) ⟨p, d⟩) :
    Settles act (fun said s => said = [] ∧ Listens l (.inFile header payloads endSeen) s)
      ⟨p.goto (.nextBlock none), d⟩ := by
  refine Party.settles_unlessAborted rfl h.matches_ledger.calm ?_
  exact settles_expect (h.goto _) .inFile

/-- The signal with which blocks are asked for is written. -/
theorem settles_handshake {step next : Step} {post : List Bytes → Seat Receiver → Prop}
    (h : Known l place ⟨p, d⟩)
    (hact : act (p.goto step) = say (p.goto step) p.job.handshake next)
    (hs : ∀ moment : Moment, moment.abort = false →
      Settles act (fun more => post ([l.options.variant.handshake.byte] :: more))
        ⟨{ p.goto step with moment }.goto next, d⟩) :
    Settles act post ⟨p.goto step, d⟩ := by
  rw [h.matches_ledger.handshake] at hact
  exact Party.settles_write hact hs

/-- Blocks are asked for once. -/
theorem settles_attempt {stage : Stage} (h : Known l .between ⟨p, d⟩) :
    Settles act (fun said s => said = writes [l.options.variant.handshake] ∧ Listens l .between s)
      ⟨p.goto (.attempt stage true), d⟩ := by
  have hcalm : (p.goto (.attempt stage true)).moment.abort = false := h.matches_ledger.calm
  have hact : act (p.goto (.attempt stage true)) =
      say (p.goto (.attempt stage true)) p.job.handshake (.expect (.solicited stage)) :=
    Party.unlessAborted_of_calm hcalm _
  refine settles_handshake h hact fun moment hcalm => ?_
  refine (settles_expect ((h.goto _).reply hcalm) .between).mono ?_
  rintro said s ⟨rfl, hlistens⟩
  exact ⟨rfl, hlistens⟩

/-- Blocks are asked for. -/
theorem settles_solicit {stage : Stage} (h : Known l .between ⟨p, d⟩) :
    Settles act (fun said s => said = writes [l.options.variant.handshake] ∧ Listens l .between s)
      ⟨p.goto (.solicit stage), d⟩ := by
  -- Failed attempts to get an earlier block do not count for this one.
  have hreset := (h.goto (.solicit stage)).mapSession
    (fun session => (session.enter .awaitHandshake).resetRetries) rfl rfl rfl rfl
  exact .silent rfl (settles_attempt hreset)

/-! ## Accepting the next leg -/

/-- A file is begun. -/
theorem settles_openFile {header : Option FileHeader} {first : Option Incoming}
    {post : List Bytes → Seat Receiver → Prop} (h : Matches l ⟨p, d⟩)
    (hs : ∀ (p' : Receiver) (d' : Desk), Known l (.inFile header [] false) ⟨p', d'⟩ →
      Settles act post ⟨p'.goto (.nextBlock first), d'⟩) :
    Settles act post ⟨p.goto (.openFile header first), d⟩ := by
  refine .openFile (begin_eq (p.goto (.openFile header first)) header first) fun moment hcalm => ?_
  refine hs { begun (p.goto (.openFile header first)) header with moment } _ ⟨?_, ?_⟩
  · exact ⟨h.options, hcalm, h.handshake, h.trailer, h.streaming, h.pending, h.blocks, h.retries,
      h.files⟩
  · have hfiling := Filing.begun (p.goto (.openFile header first)) header
    refine .inFile ⟨hfiling.1, hfiling.2, hfiling.3, hfiling.4, hfiling.5⟩ rfl ?_
    rw [stored_nil]

/-- A block whose payload has been dealt with is acknowledged, unless it is part of a stream, and
counted. -/
theorem settles_acceptBlock {header : Option FileHeader} {payloads : List Bytes}
    {payload : Bytes} {endSeen : Bool} {useful : Nat} (h : Matches l ⟨p, d⟩)
    (hfiling : Filing header (payloads ++ [payload]) payloads.length p)
    (hseen : p.job.endSeen = endSeen)
    (hstored : d.sink.current = some (stored (declaredLength header) (payloads ++ [payload]))) :
    Settles act (fun said s =>
      said = writes (if l.options.variant.isStreaming then [] else [.ack]) ∧
        Listens { l with blocks := l.blocks + 1 }
          (.inFile header (payloads ++ [payload]) endSeen) s)
      ⟨p.goto (.accept useful), d⟩ := by
  -- What follows the acknowledgement does not depend on whether there was one.
  have hcounted (moment : Moment) (hcalm : moment.abort = false) (said : List Bytes) :
      Settles act (fun more s => said ++ more = said ∧
        Listens { l with blocks := l.blocks + 1 }
          (.inFile header (payloads ++ [payload]) endSeen) s)
        ⟨{ p.goto (.accept useful) with moment }.goto (.counted useful), d⟩ := by
    refine Party.settles_report rfl fun moment' hcalm' => ?_
    have hknown : Known { l with blocks := l.blocks + 1 }
        (.inFile header (payloads ++ [payload]) endSeen)
        ⟨{ p.mapSession (·.completeBlock useful) with moment := moment' }, d⟩ := by
      refine ⟨⟨h.options, hcalm', h.handshake, h.trailer, h.streaming, h.pending,
        congrArg (· + 1) h.blocks, h.retries, h.files⟩, ?_⟩
      have hcount := hfiling.counted useful
      refine .inFile ⟨hcount.1, hcount.2, hcount.3, ?_, ?_⟩ hseen hstored
      · rw [List.length_append]
        exact hcount.4
      · rw [List.length_append]
        exact hcount.5
    refine (settles_nextBlock hknown).mono ?_
    rintro more s ⟨rfl, hlistens⟩
    exact ⟨List.append_nil said, hlistens⟩
  have hact : act (p.goto (.accept useful)) =
      if (p.goto (.accept useful)).streaming then
        .silent ((p.goto (.accept useful)).goto (.counted useful))
      else say (p.goto (.accept useful)) .ack (.counted useful) := rfl
  have hpstreaming : (p.goto (.accept useful)).streaming = l.options.variant.isStreaming :=
    h.streaming
  rw [hpstreaming] at hact
  cases hstreaming : l.options.variant.isStreaming with
  | false =>
    rw [hstreaming] at hact
    exact Party.settles_write hact fun moment hcalm => hcounted moment hcalm [_]
  | true =>
    rw [hstreaming] at hact
    exact .silent hact (hcounted p.moment h.calm [])

/-- The payload of the next block is taken. -/
theorem settles_take {header : Option FileHeader} {payloads : List Bytes} {endSeen : Bool}
    (h : Known l (.inFile header payloads endSeen) ⟨p, d⟩) (payload : Bytes) :
    Settles act (fun said s =>
      said = writes (if l.options.variant.isStreaming then [] else [.ack]) ∧
        Listens { l with blocks := l.blocks + 1 }
          (.inFile header (payloads ++ [payload]) endSeen) s)
      ⟨take p payload, d⟩ := by
  obtain ⟨hknown, hplace⟩ := h
  cases hplace with
  | inFile hfiling hseen hstored =>
    obtain ⟨data, useful, held, ⟨hdata, hfiling'⟩, htake⟩ := hfiling.taken payload
    have hknown' := hknown.job { p.job with held } rfl
    rcases htake with htake | ⟨rfl, htake⟩
    · -- Something is stored before the block is acknowledged.
      rw [htake]
      refine .store rfl hstored fun moment hcalm => ?_
      refine settles_acceptBlock ⟨hknown.options, hcalm, hknown.handshake, hknown.trailer,
        hknown.streaming, hknown.pending, hknown.blocks, hknown.retries, hknown.files⟩ ?_ hseen ?_
      · exact ⟨hfiling'.1, hfiling'.2, hfiling'.3, hfiling'.4, hfiling'.5⟩
      · rw [hdata]
    · -- The first block of a file of unknown length is held back.
      rw [htake]
      refine settles_acceptBlock hknown' ?_ hseen ?_
      · exact ⟨hfiling'.1, hfiling'.2, hfiling'.3, hfiling'.4, hfiling'.5⟩
      · rw [hdata, List.append_nil]
        exact hstored

/-- The file is closed, and the next one of a batch is asked for. -/
theorem settles_closeFile {l' : Ledger} {header : Option FileHeader} {data : Bytes}
    (h : Matches l ⟨p, d⟩) (hstored : d.sink.current = some data)
    (hheader : p.job.header = header) (hdelivered : p.job.delivered = data.length)
    (hl : l' = { l with files := l.files ++ [(⟨header, data.length⟩, data)] }) :
    Settles act (fun said s =>
      match l.options.protocol with
      | .xmodem => said = [] ∧ Done l' s
      | .ymodem => said = writes [l.options.variant.handshake] ∧ Listens l' .between s)
      ⟨p.goto .closeFile, d⟩ := by
  rw [← hheader, ← hdelivered] at hl
  subst hl
  refine .closeFile rfl hstored fun moment hcalm => ?_
  -- What follows depends on the protocol only.
  have hclosed : Matches
      { l with files := l.files ++ [(⟨p.job.header, p.job.delivered⟩, data)] }
      ⟨({ p.goto .closeFile with moment } : Receiver).mapSession
      (·.finishFile p.job.delivered),
      { d with sink := ⟨d.sink.files ++ [(⟨p.job.header, p.job.delivered⟩, data)], none⟩ }⟩ :=
    ⟨h.options, hcalm, h.handshake, h.trailer, h.streaming, h.pending, h.blocks, h.retries,
      congrArg (fun files => files ++ [(_, data)]) h.files⟩
  change Settles act _ ⟨match p.options.protocol with
    | .xmodem => Party.complete _
    | .ymodem => Party.goto _ (.solicit .header), _⟩
  rw [show p.options.protocol = l.options.protocol from congrArg Options.protocol h.options]
  cases l.options.protocol with
  | xmodem => exact .here ⟨rfl, done_complete hclosed rfl⟩
  | ymodem => exact settles_solicit ⟨hclosed, .between rfl⟩

/-- The rest of the file is stored once its end has been acknowledged, and the file is closed. -/
theorem settles_settle {header : Option FileHeader} {payloads : List Bytes} {endSeen : Bool}
    (h : Known l (.inFile header payloads endSeen) ⟨p, d⟩) :
    let l' := l.after (.inFile header payloads endSeen) .endOfFile
    Settles act (fun said s =>
      match l.options.protocol with
      | .xmodem => said = [] ∧ Done l' s
      | .ymodem => said = writes [l.options.variant.handshake] ∧ Listens l' .between s)
      ⟨p.goto .settle, d⟩ := by
  intro l'
  obtain ⟨hknown, hplace⟩ := h
  cases hplace with
  | inFile hfiling hseen hstored =>
    have hheader : p.job.header = header := hfiling.header_eq
    have hdelivered : p.job.delivered = _ := hfiling.delivered_eq
    have hheld : (p.goto .settle).job.held = _ := hfiling.held_eq
    have hoptions : p.options = l.options := hknown.options
    refine .silent rfl ?_
    rw [settle, hheld]
    cases hlast : heldBack (declaredLength header) payloads with
    | none =>
      -- Nothing was held back, so the file is there already.
      have hcontents : contents (declaredLength header) l.options.pad payloads =
          stored (declaredLength header) payloads := by
        rw [contents, hlast]
        exact List.append_nil _
      refine settles_closeFile (hknown.goto .settle) hstored hheader hdelivered ?_
      simp only [l', Ledger.after, Place.header, Place.payloads, hcontents]
    | some last =>
      -- What was held back is stored without its padding, and that completes the file.
      have hcontents : contents (declaredLength header) l.options.pad payloads =
          stored (declaredLength header) payloads ++
            stripPadding last (p.goto .settle).options.pad := by
        rw [contents, hlast, ← hoptions]
        rfl
      refine .store rfl hstored fun moment hcalm => ?_
      refine settles_closeFile ⟨hknown.options, hcalm, hknown.handshake, hknown.trailer,
        hknown.streaming, hknown.pending, hknown.blocks, hknown.retries, hknown.files⟩ rfl hheader
        ?_ ?_
      · rw [List.length_append, ← hdelivered]
        rfl
      · simp only [l', Ledger.after, Place.header, Place.payloads, hcontents]

/-- The next block of the file is accepted. -/
theorem settles_judge_block {header : Option FileHeader} {payloads : List Bytes}
    {endSeen : Bool} {block : Block} (h : Known l (.inFile header payloads endSeen) ⟨p, d⟩)
    (hnumber : block.number = UInt8.ofNat (payloads.length + 1)) :
    Settles act (fun said s => said = writes (answers l.options (.data block)) ∧
        Listens { l with blocks := l.blocks + 1 }
          (.inFile header (payloads ++ [block.payload]) endSeen) s)
      ⟨p.goto (.judge .data (.block block)), d⟩ := by
  have hplace := h.in_place
  cases hplace with
  | inFile hfiling hseen hstored =>
    have hexpected : block.number = (p.goto (.judge .data (.block block))).session.blockNumber :=
      hnumber.trans hfiling.number_eq.symm
    have hact : act (p.goto (.judge .data (.block block))) =
        judgeData (p.goto (.judge .data (.block block))) (.block block) := rfl
    rw [judgeData, if_pos hexpected] at hact
    exact .silent hact (settles_take (h.goto _) block.payload)

/-- The end of the file is accepted. -/
theorem settles_judge_end {header : Option FileHeader} {payloads : List Bytes}
    {endSeen : Bool} (h : Known l (.inFile header payloads endSeen) ⟨p, d⟩)
    (hend : l.options.protocol = .ymodem → endSeen = true) :
    let l' := l.after (.inFile header payloads endSeen) .endOfFile
    Settles act (fun said s => said = writes (answers l.options .endOfFile) ∧
      match l.options.protocol with
      | .xmodem => Done l' s
      | .ymodem => Listens l' .between s) ⟨p.goto (.judge .data .endOfFile), d⟩ := by
  intro l'
  have hplace := h.in_place
  cases hplace with
  | inFile hfiling hseen hstored =>
    have henter := (h.goto (.judge .data .endOfFile)).mapSession (·.enter .awaitEotAck)
      rfl rfl rfl rfl
    -- This is not the first end mark of a file in a batch.
    have hlast : ¬(((p.goto (.judge .data .endOfFile)).mapSession
        (·.enter .awaitEotAck)).options.protocol = .ymodem ∧
        ¬((p.goto (.judge .data .endOfFile)).mapSession
          (·.enter .awaitEotAck)).job.endSeen = true) := by
      rintro ⟨hymodem, hfirst⟩
      have hoptions : p.options = l.options := h.matches_ledger.options
      have hymodem' : p.options.protocol = .ymodem := hymodem
      rw [hoptions] at hymodem'
      exact hfirst (hseen.trans (hend hymodem'))
    have hact : act (p.goto (.judge .data .endOfFile)) =
        judgeData (p.goto (.judge .data .endOfFile)) .endOfFile := rfl
    simp only [judgeData] at hact
    rw [if_neg hlast] at hact
    refine Party.settles_write hact fun moment hcalm => ?_
    refine (settles_settle (henter.reply hcalm)).mono ?_
    intro said s hsettled
    simp only [answers]
    revert hsettled
    -- The request for what comes next is part of the answer in a batch.
    cases l.options.protocol with
    | xmodem =>
      rintro ⟨rfl, hdone⟩
      exact ⟨rfl, hdone⟩
    | ymodem =>
      rintro ⟨rfl, hlistens⟩
      exact ⟨rfl, hlistens⟩

/-- The first end mark of a file in a batch is refused. -/
theorem settles_judge_first_end {header : Option FileHeader} {payloads : List Bytes}
    (h : Known l (.inFile header payloads false) ⟨p, d⟩) (hymodem : l.options.protocol = .ymodem) :
    Settles act (fun said s => said = writes [.nak] ∧ Listens l (.inFile header payloads true) s)
      ⟨p.goto (.judge .data .endOfFile), d⟩ := by
  have hplace := h.in_place
  cases hplace with
  | inFile hfiling hseen hstored =>
    have hoptions : p.options = l.options := h.matches_ledger.options
    have hfirst : ((p.goto (.judge .data .endOfFile)).mapSession
        (·.enter .awaitEotAck)).options.protocol = .ymodem ∧
        ¬((p.goto (.judge .data .endOfFile)).mapSession
          (·.enter .awaitEotAck)).job.endSeen = true := by
      constructor
      · exact (congrArg Options.protocol hoptions).trans hymodem
      · exact Bool.not_eq_true _ ▸ hseen
    have hact : act (p.goto (.judge .data .endOfFile)) =
        judgeData (p.goto (.judge .data .endOfFile)) .endOfFile := rfl
    simp only [judgeData] at hact
    rw [if_pos hfirst] at hact
    obtain ⟨hknown, -⟩ := h
    refine Party.settles_write hact fun moment hcalm => ?_
    -- Nothing changes but that an end mark has been seen.
    have hrefused : Known l (.inFile header payloads true)
        ⟨{ p with
            session := p.session.enter .awaitEotAck
            job := { p.job with endSeen := true }
            moment }, d⟩ :=
      ⟨⟨hknown.options, hcalm, hknown.handshake, hknown.trailer, hknown.streaming,
        hknown.pending, hknown.blocks, hknown.retries, hknown.files⟩,
        .inFile ⟨hfiling.1, hfiling.2, hfiling.3, hfiling.4, hfiling.5⟩ rfl hstored⟩
    have hnext := settles_nextBlock hrefused
    refine hnext.mono ?_
    rintro said s ⟨rfl, hlistens⟩
    exact ⟨rfl, hlistens⟩

/-- The data of a file is asked for, and the file is begun. -/
theorem settles_signal (step : Step) {header : FileHeader} (h : Known l .between ⟨p, d⟩)
    (hact : act (p.goto step) =
      say (p.goto step) p.job.handshake (.openFile (some header) none)) :
    Settles act (fun said s => said = writes [l.options.variant.handshake] ∧
        Listens l (.inFile (some header) [] false) s) ⟨p.goto step, d⟩ := by
  refine settles_handshake h hact fun moment hcalm => ?_
  have hreply := (h.matches_ledger.goto step).reply hcalm
  have hopen := settles_openFile hreply fun (p' : Receiver) (d' : Desk)
    (hknown : Known l (.inFile (some header) [] false) ⟨p', d'⟩) => settles_nextBlock hknown
  refine hopen.mono ?_
  rintro said s ⟨rfl, hlistens⟩
  exact ⟨rfl, hlistens⟩

/-- A header is acknowledged, unless it begins a stream, and the data is asked for. -/
theorem settles_announced {header : FileHeader} (h : Known l .between ⟨p, d⟩) :
    Settles act (fun said s =>
      said = writes (if l.options.variant.isStreaming then [l.options.variant.handshake]
        else [.ack, l.options.variant.handshake]) ∧
        Listens l (.inFile (some header) [] false) s)
      ⟨p.goto (.announced header), d⟩ := by
  have hact : act (p.goto (.announced header)) =
      if (p.goto (.announced header)).streaming then
        say (p.goto (.announced header)) p.job.handshake (.openFile (some header) none)
      else say (p.goto (.announced header)) .ack (.signal header) := rfl
  have hpstreaming : (p.goto (.announced header)).streaming = l.options.variant.isStreaming :=
    h.matches_ledger.streaming
  rw [hpstreaming] at hact
  cases hstreaming : l.options.variant.isStreaming with
  | true =>
    rw [hstreaming] at hact
    -- The request for a stream stands for the acknowledgement.
    exact settles_signal _ h hact
  | false =>
    rw [hstreaming] at hact
    refine Party.settles_write hact fun moment hcalm => ?_
    have hreply := (h.goto (.announced header)).reply hcalm
    have hsignal := settles_signal (.signal header) hreply rfl
    refine hsignal.mono ?_
    rintro said s ⟨rfl, hlistens⟩
    exact ⟨rfl, hlistens⟩

/-- The header of a file is accepted. -/
theorem settles_judge_header {stage : Stage} {header : FileHeader} (h : Known l .between ⟨p, d⟩)
    (hymodem : l.options.protocol = .ymodem)
    (hparse : FileHeader.parse header.toBlock.payload = .ok (some header.received)) :
    Settles act (fun said s => said = writes (answers l.options (.header header)) ∧
        Listens l (.inFile (some header.received) [] false) s)
      ⟨p.goto (.judge (.solicited stage) (.block header.toBlock)), d⟩ := by
  have hreset := (h.goto (.judge (.solicited stage) (.block header.toBlock))).mapSession
    Session.resetRetries rfl rfl rfl rfl
  have hprotocol : ((p.goto (.judge (.solicited stage) (.block header.toBlock))).mapSession
      Session.resetRetries).options.protocol = .ymodem :=
    (congrArg Options.protocol h.matches_ledger.options).trans hymodem
  have hact : act (p.goto (.judge (.solicited stage) (.block header.toBlock))) =
      .silent (((p.goto (.judge (.solicited stage) (.block header.toBlock))).mapSession
        Session.resetRetries).goto (.announced header.received)) := by
    -- The block is read as a header.
    change judgeSolicited _ stage (.block header.toBlock) = _
    simp only [judgeSolicited, hprotocol, readHeader, hparse]
    rfl
  exact .silent hact (settles_announced hreset)

/-- The end of a batch is accepted. -/
theorem settles_judge_endOfBatch {stage : Stage} (h : Known l .between ⟨p, d⟩)
    (hymodem : l.options.protocol = .ymodem) :
    Settles act (fun said s => said = writes (answers l.options .endOfBatch) ∧ Done l s)
      ⟨p.goto (.judge (.solicited stage) (.block FileHeader.endOfBatch)), d⟩ := by
  have hprotocol : ((p.goto (.judge (.solicited stage) (.block FileHeader.endOfBatch))).mapSession
      Session.resetRetries).options.protocol = .ymodem :=
    (congrArg Options.protocol h.matches_ledger.options).trans hymodem
  -- A block with an empty name ends the batch.
  have hparse : FileHeader.parse FileHeader.endOfBatch.payload = .ok none := rfl
  have hact : act (p.goto (.judge (.solicited stage) (.block FileHeader.endOfBatch))) =
      say ((p.goto (.judge (.solicited stage) (.block FileHeader.endOfBatch))).mapSession
        Session.resetRetries) .ack .finish := by
    change judgeSolicited _ stage (.block FileHeader.endOfBatch) = _
    simp only [judgeSolicited, hprotocol, readHeader, hparse]
    rfl
  have hreset := (h.matches_ledger.goto (.judge (.solicited stage)
    (.block FileHeader.endOfBatch))).mapSession Session.resetRetries rfl rfl
  have hclosed : d.sink.current = none := h.closed
  refine Party.settles_write hact fun moment hcalm => ?_
  exact .silent rfl (.here ⟨rfl, done_complete ((hreset.reply hcalm).goto _) hclosed⟩)

/-- Without headers the first thing that comes begins the only file. -/
theorem settles_judge_xmodem {stage : Stage} {incoming : Incoming}
    {post : List Bytes → Seat Receiver → Prop} (h : Known l .between ⟨p, d⟩)
    (hxmodem : l.options.protocol = .xmodem)
    (hincoming : incoming = .endOfFile ∨ ∃ block, incoming = .block block)
    (hs : ∀ (p' : Receiver) (d' : Desk), Known l (.inFile none [] false) ⟨p', d'⟩ →
      Settles act post ⟨p'.goto (.judge .data incoming), d'⟩) :
    Settles act post ⟨p.goto (.judge (.solicited stage) incoming), d⟩ := by
  have hprotocol : (p.goto (.judge (.solicited stage) incoming)).options.protocol = .xmodem :=
    (congrArg Options.protocol h.matches_ledger.options).trans hxmodem
  have hprotocol' : ((p.goto (.judge (.solicited stage) incoming)).mapSession
      Session.resetRetries).options.protocol = .xmodem := hprotocol
  have hact : act (p.goto (.judge (.solicited stage) incoming)) =
      .silent (((p.goto (.judge (.solicited stage) incoming)).mapSession
        Session.resetRetries).goto (.openFile none (some incoming))) := by
    change judgeSolicited _ stage incoming = _
    -- The file is begun before the block or the end mark is judged again as a part of it.
    rcases hincoming with rfl | ⟨block, rfl⟩
    · simp only [judgeSolicited, hprotocol]
    · simp only [judgeSolicited, hprotocol']
  have hreset := (h.matches_ledger.goto (.judge (.solicited stage) incoming)).mapSession
    Session.resetRetries rfl rfl
  refine .silent hact (settles_openFile hreset fun p' d' hknown => ?_)
  exact Party.settles_unlessAborted rfl hknown.matches_ledger.calm (hs p' d' hknown)

/-- The end of a file is accepted: a file without a header is the only one, and in a batch
another file or the end of the batch follows. -/
theorem accepts_endOfFile {place' : Place} {legs : List Leg} {said : List Bytes}
    {s : Seat Receiver} (hrest : Route l.options.protocol none legs)
    (hl : l.after place' .endOfFile = l.after place .endOfFile)
    (hs : said = writes (answers l.options .endOfFile) ∧
      match l.options.protocol with
      | .xmodem => Done (l.after place' .endOfFile) s
      | .ymodem => Listens (l.after place' .endOfFile) .between s) :
    Accepts l place .endOfFile legs said s := by
  obtain ⟨hsaid, hs⟩ := hs
  rw [hl] at hs
  refine ⟨hsaid, ?_⟩
  -- The route ends here without batches and goes on in a batch.
  cases hprotocol : l.options.protocol with
  | xmodem =>
    rw [hprotocol] at hs hrest
    cases hrest with
    | header hymodem => cases hymodem
    | endOfBatch hymodem => cases hymodem
    | done => exact .inl ⟨rfl, hs⟩
  | ymodem =>
    rw [hprotocol] at hs hrest
    cases hrest with
    | header hymodem => exact .inr ⟨List.cons_ne_nil _ _, hs⟩
    | endOfBatch hymodem => exact .inr ⟨List.cons_ne_nil _ _, hs⟩
    | done hxmodem => cases hxmodem

/-- The next leg of a route is accepted. An end mark in a batch is the second one. -/
theorem settles_judge {purpose : Purpose} {leg : Leg} {legs : List Leg}
    (h : Known l place ⟨p, d⟩) (hserving : Serving place purpose)
    (hroute : Route l.options.protocol (place.stage l.options.protocol) (leg :: legs))
    (hend : leg = .endOfFile → l.options.protocol = .ymodem → place.endSeen = true) :
    Settles act (Accepts l place leg legs) ⟨p.goto (.judge purpose (incomingOf leg)), d⟩ := by
  generalize hstage : place.stage l.options.protocol = stage at hroute
  -- Between files only a receiver without headers is at a stage of a file.
  have hxmodem {count : Nat} (hbetween : place = .between) (hcount : stage = some count) :
      l.options.protocol = .xmodem ∧ count = 0 := by
    rw [hbetween, hcount] at hstage
    cases hprotocol : l.options.protocol with
    | ymodem =>
      rw [hprotocol] at hstage
      cases hstage
    | xmodem =>
      rw [hprotocol] at hstage
      cases hstage
      exact ⟨rfl, rfl⟩
  cases hroute with
  | @data count block legs hnumber hrest =>
    have hne : legs ≠ [] := by
      rintro rfl
      cases hrest
    cases hserving with
    | between =>
      -- The first block begins the only file.
      obtain ⟨hprotocol, rfl⟩ := hxmodem rfl rfl
      refine settles_judge_xmodem h hprotocol (.inr ⟨block, rfl⟩) fun p' d' hknown => ?_
      refine (settles_judge_block hknown hnumber).mono ?_
      rintro said s ⟨hsaid, hlistens⟩
      exact ⟨hsaid, .inr ⟨hne, hlistens⟩⟩
    | inFile =>
      cases hstage
      refine (settles_judge_block h hnumber).mono ?_
      rintro said s ⟨hsaid, hlistens⟩
      exact ⟨hsaid, .inr ⟨hne, hlistens⟩⟩
  | @endOfFile count legs hrest =>
    cases hserving with
    | between =>
      -- A file without blocks begins with its end mark.
      obtain ⟨hprotocol, -⟩ := hxmodem rfl rfl
      refine settles_judge_xmodem h hprotocol (.inl rfl) fun p' d' hknown => ?_
      refine (settles_judge_end hknown fun hymodem => ?_).mono
        fun said s => accepts_endOfFile hrest rfl
      rw [hprotocol] at hymodem
      cases hymodem
    | inFile =>
      exact (settles_judge_end h (hend rfl)).mono fun said s => accepts_endOfFile hrest rfl
  | header hymodem hparse hrest =>
    cases hserving with
    | inFile => cases hstage
    | between =>
      have hne : legs ≠ [] := by
        rintro rfl
        cases hrest
      refine (settles_judge_header h hymodem hparse).mono ?_
      rintro said s ⟨hsaid, hlistens⟩
      exact ⟨hsaid, .inr ⟨hne, hlistens⟩⟩
  | endOfBatch hymodem =>
    cases hserving with
    | inFile => cases hstage
    | between =>
      refine (settles_judge_endOfBatch h hymodem).mono ?_
      rintro said s ⟨hsaid, hdone⟩
      exact ⟨hsaid, .inl ⟨rfl, hdone⟩⟩

end

/-! ## Frames and end marks -/

section

variable {l : Ledger} {place : Place} {s : Seat Receiver}

/-- The first byte of a frame is taken. -/
theorem settles_of_marker (size : BlockSize) {rest : Bytes} (h : Listens l place s)
    (hpending : l.pending = size.marker :: rest) :
    Settles act (fun said s => said = [] ∧ Collects { l with pending := rest } place size s) s := by
  obtain ⟨p, d⟩ := s
  obtain ⟨hknown, purpose, deadline, hserving, hphase⟩ := h
  have hqueue : p.pending = size.marker :: rest := hknown.matches_ledger.pending.trans hpending
  refine .silent ((act_of_listen hphase).trans (Party.listen_byte_cons _ _ hqueue)) ?_
  have htrailer : p.trailer = l.options.variant.trailer := hknown.matches_ledger.trailer
  have hheard : heardStart purpose (some [size.marker]) { p with pending := rest } =
      ({ p with pending := rest } : Receiver).goto (.collect purpose [size.marker]
        (Block.frameLength size l.options.variant.trailer - 1)
        (.exact (Block.frameLength size l.options.variant.trailer - 1)
          p.options.config.charTimeout.toNat
          (p.moment.now + p.options.config.charTimeout.toNat))) := by
    rw [← htrailer, heardStart_marker]
    exact collect_marker rfl
  rw [hheard]
  exact .here ⟨rfl, (hknown.queue rest).goto _, purpose, _, _, hserving, rfl⟩

/-- A frame whose rest has arrived is read. -/
theorem settles_of_frame {post : List Bytes → Seat Receiver → Prop} {block : Block} {rest : Bytes}
    (h : Collects l place block.size s)
    (hpending : l.pending = (block.encode l.options.variant.trailer).tail ++ rest)
    (hs : ∀ (p : Receiver) (purpose : Purpose), Known { l with pending := rest } place ⟨p, s.desk⟩ →
      Serving place purpose → Settles act post ⟨p.goto (.judge purpose (.block block)), s.desk⟩) :
    Settles act post s := by
  obtain ⟨p, d⟩ := s
  obtain ⟨hknown, purpose, idle, deadline, hserving, hphase⟩ := h
  have hqueue : p.pending = (block.encode l.options.variant.trailer).tail ++ rest :=
    hknown.matches_ledger.pending.trans hpending
  have hlength : (block.encode l.options.variant.trailer).tail.length =
      Block.frameLength block.size l.options.variant.trailer - 1 := by
    rw [List.length_tail, Block.length_encode]
  -- All bytes of the frame are there, so the wait is over at once.
  have hcount : Block.frameLength block.size l.options.variant.trailer - 1 ≤ p.pending.length := by
    rw [hqueue, List.length_append]
    omega
  refine .silent ((act_of_collect hphase).trans (Party.listen_exact_of_le _ _ hcount)) ?_
  have htrailer : p.trailer = l.options.variant.trailer := hknown.matches_ledger.trailer
  rw [hqueue, ← hlength, List.take_left, List.drop_left]
  -- The frame is decoded to the block that it was made from.
  have hdecode : Block.decode ([block.size.marker] ++ (block.encode l.options.variant.trailer).tail)
      p.trailer = .ok block := by
    rw [htrailer]
    exact Block.decode_encode _ _
  have hheard : heardRest purpose [block.size.marker]
      (block.encode l.options.variant.trailer).tail.length
      (some (block.encode l.options.variant.trailer).tail) { p with pending := rest } =
      ({ p with pending := rest } : Receiver).goto (.judge purpose (.block block)) := by
    simp only [heardRest, collect, hdecode, Incoming.ofDecoded]
  rw [hheard]
  exact hs { p with pending := rest } purpose (hknown.queue rest) hserving

/-- An end mark is read. -/
theorem settles_of_end_mark {post : List Bytes → Seat Receiver → Prop} {rest : Bytes}
    (h : Listens l place s) (hpending : l.pending = Control.eot.byte :: rest)
    (hs : ∀ (p : Receiver) (purpose : Purpose), Known { l with pending := rest } place ⟨p, s.desk⟩ →
      Serving place purpose → Settles act post ⟨p.goto (.judge purpose .endOfFile), s.desk⟩) :
    Settles act post s := by
  obtain ⟨p, d⟩ := s
  obtain ⟨hknown, purpose, deadline, hserving, hphase⟩ := h
  have hqueue : p.pending = Control.eot.byte :: rest :=
    hknown.matches_ledger.pending.trans hpending
  refine .silent ((act_of_listen hphase).trans (Party.listen_byte_cons _ _ hqueue)) ?_
  exact hs { p with pending := rest } purpose (hknown.queue rest) hserving

/-- A leg whose message has arrived as a whole is read. -/
theorem settles_of_message {post : List Bytes → Seat Receiver → Prop} {leg : Leg} (rest : Bytes)
    (h : Listens l place s)
    (hpending : l.pending = leg.message l.options.variant.trailer ++ rest)
    (hs : ∀ (p : Receiver) (d : Desk) (purpose : Purpose),
      Known { l with pending := rest } place ⟨p, d⟩ → Serving place purpose →
      Settles act post ⟨p.goto (.judge purpose (incomingOf leg)), d⟩) :
    Settles act post s := by
  unfold Leg.message at hpending
  unfold incomingOf at hs
  cases hblock : leg.block? with
  | none =>
    simp only [hblock] at hpending hs
    exact settles_of_end_mark h hpending fun p purpose => hs p s.desk purpose
  | some block =>
    simp only [hblock] at hpending hs
    refine (settles_of_marker block.size h hpending).trans ?_
    rintro said s' ⟨rfl, hcollects⟩
    exact settles_of_frame hcollects rfl fun p purpose => hs p s'.desk purpose

/-- A receiver that waits for a leg takes in what arrives. -/
theorem listens_of_arrival (h : Listens l place s) {timeout : Nat}
    {next : Except IoError Bytes → Moment → Receiver} (hact : act s.party = .read timeout next)
    {arrived : Bytes} {moment : Moment} (hne : arrived ≠ []) (hcalm : moment.abort = false) :
    l.pending = [] ∧
      Listens { l with pending := arrived } place ⟨next (.ok arrived) moment, s.desk⟩ := by
  obtain ⟨p, d⟩ := s
  obtain ⟨hknown, purpose, deadline, hserving, hphase⟩ := h
  obtain ⟨hqueue, hnext, -⟩ := Party.listen_byte_eq_read ((act_of_listen hphase).symm.trans hact)
  refine ⟨hknown.matches_ledger.pending.symm.trans hqueue, ?_⟩
  rw [hnext _ _ hne]
  exact ⟨((hknown.queue arrived).reply hcalm).goto _, purpose, deadline, hserving, rfl⟩

/-- A receiver in the middle of a frame takes in what arrives. -/
theorem collects_of_arrival {size : BlockSize} (h : Collects l place size s) {timeout : Nat}
    {next : Except IoError Bytes → Moment → Receiver} (hact : act s.party = .read timeout next)
    {arrived : Bytes} {moment : Moment} (hne : arrived ≠ []) (hcalm : moment.abort = false) :
    l.pending.length < Block.frameLength size l.options.variant.trailer - 1 ∧
      Collects { l with pending := l.pending ++ arrived } place size
        ⟨next (.ok arrived) moment, s.desk⟩ := by
  obtain ⟨p, d⟩ := s
  obtain ⟨hknown, purpose, idle, deadline, hserving, hphase⟩ := h
  obtain ⟨hmissing, hnext⟩ := Party.listen_exact_eq_read ((act_of_collect hphase).symm.trans hact)
  have hqueue : p.pending = l.pending := hknown.matches_ledger.pending
  refine ⟨by rw [← hqueue]; exact hmissing, ?_⟩
  rw [hnext _ _ hne, ← hqueue]
  exact ⟨((hknown.queue (p.pending ++ arrived)).reply hcalm).goto _, purpose, idle, _, hserving,
    rfl⟩

/-- A receiver that waits for a leg reads if nothing has arrived. -/
theorem Listens.reads (h : Listens l place s) (hpending : l.pending = []) :
    ∃ timeout next, act s.party = .read timeout next := by
  obtain ⟨purpose, deadline, -, hphase⟩ := h.step
  rw [act_of_listen hphase]
  exact Party.exists_listen_byte_eq_read _ _ (h.known.matches_ledger.pending.trans hpending)

/-- A receiver in the middle of a frame reads if a part of it has not arrived. -/
theorem Collects.reads {size : BlockSize} (h : Collects l place size s)
    (hmissing : l.pending.length < Block.frameLength size l.options.variant.trailer - 1) :
    ∃ timeout next, act s.party = .read timeout next := by
  obtain ⟨purpose, idle, deadline, -, hphase⟩ := h.step
  rw [act_of_collect hphase]
  rw [← h.known.matches_ledger.pending] at hmissing
  exact Party.exists_listen_exact_eq_read _ _ hmissing

/-- A receiver that is through stops. -/
theorem Done.stops (h : Done l s) : ∃ ending, act s.party = .stop ending := by
  obtain ⟨summary, hphase, -⟩ := h.phase
  simp only [act, Party.act, hphase]
  exact ⟨_, rfl⟩

/-- A receiver that starts asks for the first leg. The protocol decides which stage is reported, and
nothing else. -/
theorem start_new_eq {options : Options} (hcheck : options.check = none) (moment : Moment) :
    ∃ stage, start (new options moment) = (new options moment).goto (.solicit stage) := by
  simp only [start, new, Party.new, hcheck]
  cases options.protocol with
  | xmodem => exact ⟨_, rfl⟩
  | ymodem => exact ⟨_, rfl⟩

/-- A receiver starts to ask for the first leg. -/
theorem settles_start {options : Options} {moment : Moment} {sources : List Bytes}
    (hcheck : options.check = none) (hcalm : moment.abort = false) :
    Settles act (fun said s => said = writes [options.variant.handshake] ∧
        Listens ⟨options, [], 0, 0, []⟩ .between s)
      ⟨new options moment, ⟨sources, {}⟩⟩ := by
  have hknown : Known ⟨options, [], 0, 0, []⟩ .between ⟨new options moment, ⟨sources, {}⟩⟩ :=
    ⟨⟨rfl, hcalm, rfl, rfl, rfl, rfl, rfl, rfl, rfl⟩, .between rfl⟩
  obtain ⟨stage, hstart⟩ := start_new_eq hcheck moment
  refine .silent rfl ?_
  rw [hstart]
  exact settles_solicit hknown

/-- A receiver whose options no transfer can run with gives up at once. -/
theorem settles_start_reject {options : Options} {moment : Moment} {d : Desk}
    (h : options.check ≠ none) :
    Settles act (fun _ s => s.party.Lost) ⟨new options moment, d⟩ := by
  have hstart : (start (new options moment)).Lost := by
    obtain ⟨error, hcheck⟩ := Option.ne_none_iff_exists'.mp h
    simp only [start, new, Party.new, hcheck]
    exact ⟨error, .inr rfl⟩
  exact .silent rfl (.here hstart)

/-! ## Repetitions and silence -/

/-- A failed attempt is counted. -/
theorem Known.recordRetry {p : Receiver} {d : Desk} (h : Known l place ⟨p, d⟩) :
    Known { l with retries := l.retries + 1 } place ⟨p.mapSession Session.recordRetry, d⟩ := by
  obtain ⟨hknown, hplace⟩ := h
  exact ⟨⟨hknown.options, hknown.calm, hknown.handshake, hknown.trailer, hknown.streaming,
    hknown.pending, hknown.blocks, congrArg (· + 1) hknown.retries, hknown.files⟩,
    hplace.congr rfl rfl rfl⟩

/-- After a failed attempt to get a first block the receiver asks again or gives up. -/
theorem settles_missed_solicited (stage : Stage) {p : Receiver} {d : Desk}
    (h : Known l .between ⟨p, d⟩) :
    Settles act (fun said s => s.party.Lost ∨ said = writes [l.options.variant.handshake] ∧
        ∃ retries, Listens { l with retries } .between s)
      ⟨p.goto (.missed (.solicited stage) true), d⟩ := by
  refine .silent rfl ?_
  -- The attempts are used up, or there is one more.
  rcases (p.goto (.missed (.solicited stage) true)).lost_or_retry_eq stage
    (.attempt stage true) with hlost | hretry
  · exact .here (.inl hlost)
  · rw [hretry]
    have hretried := (h.goto (.missed (.solicited stage) true)).recordRetry
    refine (settles_attempt hretried).mono ?_
    rintro said s ⟨hsaid, hlistens⟩
    exact .inr ⟨hsaid, l.retries + 1, hlistens⟩

/-- After a failed attempt to get the next block the receiver waits again or gives up. -/
theorem settles_missed_data {header : Option FileHeader} {payloads : List Bytes} {endSeen : Bool}
    {p : Receiver} {d : Desk} (h : Known l (.inFile header payloads endSeen) ⟨p, d⟩) :
    Settles act (fun said s => s.party.Lost ∨ said = [] ∧
        ∃ retries, Listens { l with retries } (.inFile header payloads endSeen) s)
      ⟨p.goto (.missed .data true), d⟩ := by
  refine .silent rfl ?_
  rcases (p.goto (.missed .data true)).lost_or_retry_eq (stage (p.goto (.missed .data true)) .data)
    (.nextBlock none) with hlost | hretry
  · exact .here (.inl hlost)
  · rw [hretry]
    refine (settles_nextBlock (h.goto _).recordRetry).mono ?_
    rintro said s ⟨hsaid, hlistens⟩
    exact .inr ⟨hsaid, l.retries + 1, hlistens⟩

/-- Neighbouring block numbers are different. -/
theorem ne_add_one (number : UInt8) : number ≠ number + 1 := by
  intro h
  have hnat := congrArg UInt8.toNat h
  rw [UInt8.toNat_add] at hnat
  have hlt := number.toNat_lt
  -- Numbers go round modulo 256.
  change number.toNat = (number.toNat + 1) % 256 at hnat
  omega

/-- After a repeated header, or a block whose number has come round to that of a header, the data
is asked for again. -/
theorem settles_repeated {header : Option FileHeader} {payloads : List Bytes} {endSeen : Bool}
    {number : UInt8} {p : Receiver} {d : Desk}
    (h : Known l (.inFile header payloads endSeen) ⟨p, d⟩) :
    Settles act (fun said s =>
      (said = [] ∨ l.options.protocol = .ymodem ∧ said = writes [l.options.variant.handshake]) ∧
        Listens l (.inFile header payloads endSeen) s) ⟨p.goto (.repeated number), d⟩ := by
  have hact : act (p.goto (.repeated number)) =
      if number = 0 ∧ (p.goto (.repeated number)).options.protocol = .ymodem then
        say (p.goto (.repeated number)) p.job.handshake (.nextBlock none)
      else .silent ((p.goto (.repeated number)).goto (.nextBlock none)) := rfl
  split at hact
  · -- A number zero stands for the header.
    rename_i hheader
    have hymodem : l.options.protocol = .ymodem :=
      (congrArg Options.protocol h.matches_ledger.options).symm.trans hheader.2
    refine settles_handshake h hact fun moment hcalm => ?_
    have hnext := settles_nextBlock ((h.goto (.repeated number)).reply hcalm)
    refine hnext.mono ?_
    rintro said s ⟨rfl, hlistens⟩
    exact ⟨.inr ⟨hymodem, rfl⟩, hlistens⟩
  · refine .silent hact ?_
    have hnext := settles_nextBlock h
    refine hnext.mono ?_
    rintro said s ⟨rfl, hlistens⟩
    exact ⟨.inl rfl, hlistens⟩

/-- A repeated block is acknowledged and not taken. After a repeated header the data is asked for
again. -/
theorem settles_judge_repeated_block {header : Option FileHeader} {payloads : List Bytes}
    {endSeen : Bool} {block : Block} {p : Receiver} {d : Desk}
    (h : Known l (.inFile header payloads endSeen) ⟨p, d⟩)
    (hnumber : block.number + 1 = UInt8.ofNat (payloads.length + 1))
    (hstreaming : l.options.variant.isStreaming = false) :
    Settles act (fun said s =>
      (said = writes [.ack] ∨
        l.options.protocol = .ymodem ∧ said = writes [.ack, l.options.variant.handshake]) ∧
        Listens l (.inFile header payloads endSeen) s)
      ⟨p.goto (.judge .data (.block block)), d⟩ := by
  have hplace := h.in_place
  cases hplace with
  | inFile hfiling hseen hstored =>
    have hexpected : (p.goto (.judge .data (.block block))).session.blockNumber =
        block.number + 1 := hfiling.number_eq.trans hnumber.symm
    -- The block is not the next one but the one before it.
    have hnew : ¬block.number = (p.goto (.judge .data (.block block))).session.blockNumber := by
      rw [hexpected]
      exact ne_add_one block.number
    have hold : block.number = (p.goto (.judge .data (.block block))).session.blockNumber - 1 ∧
        ¬(p.goto (.judge .data (.block block))).streaming = true := by
      constructor
      · rw [hexpected, UInt8.add_sub_cancel]
      · rw [show (p.goto (.judge .data (.block block))).streaming = l.options.variant.isStreaming
          from h.matches_ledger.streaming, hstreaming]
        exact Bool.false_ne_true
    have hact : act (p.goto (.judge .data (.block block))) =
        judgeData (p.goto (.judge .data (.block block))) (.block block) := rfl
    simp only [judgeData, if_neg hnew, if_pos hold] at hact
    refine Party.settles_write hact fun moment hcalm => ?_
    have hreply := (h.goto (.judge .data (.block block))).reply hcalm
    refine (settles_repeated hreply).mono ?_
    rintro said s ⟨rfl | ⟨hymodem, rfl⟩, hlistens⟩
    · exact ⟨.inl rfl, hlistens⟩
    · exact ⟨.inr ⟨hymodem, rfl⟩, hlistens⟩

/-- A repeated end mark is acknowledged, and the next file is asked for again. -/
theorem settles_judge_repeated_end {stage : Stage} {p : Receiver} {d : Desk}
    (h : Known l .between ⟨p, d⟩) (hymodem : l.options.protocol = .ymodem) :
    Settles act (fun said s => s.party.Lost ∨ said = writes [.ack, l.options.variant.handshake] ∧
        ∃ retries, Listens { l with retries } .between s)
      ⟨p.goto (.judge (.solicited stage) .endOfFile), d⟩ := by
  have hprotocol : (p.goto (.judge (.solicited stage) .endOfFile)).options.protocol = .ymodem :=
    (congrArg Options.protocol h.matches_ledger.options).trans hymodem
  have hact : act (p.goto (.judge (.solicited stage) .endOfFile)) =
      judgeSolicited (p.goto (.judge (.solicited stage) .endOfFile)) stage .endOfFile := rfl
  simp only [judgeSolicited, hprotocol] at hact
  refine Party.settles_write hact fun moment hcalm => ?_
  have hmissed := settles_missed_solicited stage
    ((h.goto (.judge (.solicited stage) .endOfFile)).reply hcalm)
  refine hmissed.mono ?_
  rintro said s (hlost | ⟨rfl, hlistens⟩)
  · exact .inl hlost
  · exact .inr ⟨rfl, hlistens⟩

/-- The latest leg that comes once more is acknowledged and not taken. -/
theorem settles_judge_repeated {purpose : Purpose} {leg : Leg} {p : Receiver} {d : Desk}
    (h : Known l place ⟨p, d⟩) (hserving : Serving place purpose)
    (hfollows : Follows l.options.protocol (some leg) place)
    (hstreaming : l.options.variant.isStreaming = false) :
    Settles act (fun said s => s.party.Lost ∨
        (said = writes [.ack] ∨
          l.options.protocol = .ymodem ∧ said = writes [.ack, l.options.variant.handshake]) ∧
          ∃ retries, Listens { l with retries } place s)
      ⟨p.goto (.judge purpose (incomingOf leg)), d⟩ := by
  cases hfollows with
  | header hymodem =>
    cases hserving with
    | inFile =>
      refine (settles_judge_repeated_block h rfl hstreaming).mono ?_
      rintro said s ⟨hsaid, hlistens⟩
      exact .inr ⟨hsaid, l.retries, hlistens⟩
  -- A header has the number zero and every block the number after the one before it, so the leg has
  -- the number before the expected one.
  | @data block header payloads endSeen hnumber =>
    cases hserving with
    | inFile =>
      have hnext : block.number + 1 =
          UInt8.ofNat ((payloads ++ [block.payload]).length + 1) := by
        rw [hnumber, List.length_append]
        exact (UInt8.ofNat_add (payloads.length + 1) 1).symm
      refine (settles_judge_repeated_block h hnext hstreaming).mono ?_
      rintro said s ⟨hsaid, hlistens⟩
      exact .inr ⟨hsaid, l.retries, hlistens⟩
  | endOfFile hymodem =>
    cases hserving with
    | between =>
      refine (settles_judge_repeated_end h hymodem).mono ?_
      rintro said s (hlost | ⟨hsaid, hlistens⟩)
      · exact .inl hlost
      · exact .inr ⟨.inr ⟨hymodem, hsaid⟩, hlistens⟩

/-- A receiver that never settles for the checksum keeps its signal. -/
theorem fallBack_eq_self {p : Receiver}
    (h : p.options.protocol = .xmodem → p.options.config.crcHandshakeAttempts = 0) :
    fallBack p = p := by
  rw [fallBack, if_neg]
  rintro ⟨hxmodem, -, hpos, -⟩
  rw [h hxmodem] at hpos
  exact absurd hpos (by decide)

/-- A receiver that has heard nothing asks again for what it waits for. -/
theorem settles_judge_silence {purpose : Purpose} {p : Receiver} {d : Desk}
    (h : Known l place ⟨p, d⟩) (hserving : Serving place purpose)
    (hstreaming : l.options.variant.isStreaming = false)
    (hattempts : l.options.protocol = .xmodem → l.options.config.crcHandshakeAttempts = 0) :
    Settles act (fun said s => s.party.Lost ∨
        said = writes [if place.asks l.options.protocol then l.options.variant.handshake
          else .nak] ∧ ∃ retries, Listens { l with retries } place s)
      ⟨p.goto (.judge purpose .silence), d⟩ := by
  have hoptions : p.options = l.options := h.matches_ledger.options
  cases hserving with
  | @between stage =>
    -- The block check is not changed.
    have hfallBack : fallBack (p.goto (.judge (.solicited stage) .silence)) =
        p.goto (.judge (.solicited stage) .silence) := by
      apply fallBack_eq_self
      change p.options.protocol = .xmodem → p.options.config.crcHandshakeAttempts = 0
      rw [hoptions]
      exact hattempts
    refine .silent rfl ?_
    rw [hfallBack]
    exact settles_missed_solicited stage (h.goto _)
  | @inFile header payloads endSeen =>
    have hplace := h.in_place
    cases hplace with
    | inFile hfiling hseen hstored =>
      have hact : act (p.goto (.judge .data .silence)) =
          judgeData (p.goto (.judge .data .silence)) .silence := rfl
      have hpstreaming : (p.goto (.judge .data .silence)).streaming = false :=
        h.matches_ledger.streaming.trans hstreaming
      simp only [judgeData, hpstreaming] at hact
      have hmissed (moment : Moment) (hcalm : moment.abort = false) := settles_missed_data
        ((h.goto (.judge .data .silence)).reply hcalm)
      by_cases hasks : l.options.protocol = .ymodem ∧ payloads = []
      · -- The signal that asks for the data may have been lost.
        have hfirst : (p.goto (.judge .data .silence)).options.protocol = .ymodem ∧
            (p.goto (.judge .data .silence)).session.fileBlocks = 0 := by
          refine ⟨(congrArg Options.protocol hoptions).trans hasks.1, ?_⟩
          rw [show (p.goto (.judge .data .silence)).session.fileBlocks = payloads.length from
            hfiling.count_eq, hasks.2]
          rfl
        rw [if_neg Bool.false_ne_true, if_pos hfirst] at hact
        have hasks' : Place.asks l.options.protocol (.inFile header payloads endSeen) = true :=
          decide_eq_true hasks
        rw [hasks', if_pos rfl]
        refine settles_handshake h hact fun moment hcalm => (hmissed moment hcalm).mono ?_
        rintro said s (hlost | ⟨rfl, hlistens⟩)
        · exact .inl hlost
        · exact .inr ⟨rfl, hlistens⟩
      · -- A block is missing, and it is refused.
        have hlater : ¬((p.goto (.judge .data .silence)).options.protocol = .ymodem ∧
            (p.goto (.judge .data .silence)).session.fileBlocks = 0) := by
          rintro ⟨hymodem, hnone⟩
          refine hasks ⟨(congrArg Options.protocol hoptions).symm.trans hymodem, ?_⟩
          exact List.eq_nil_of_length_eq_zero (hfiling.count_eq.symm.trans hnone)
        rw [if_neg Bool.false_ne_true, if_neg hlater] at hact
        have hasks' : Place.asks l.options.protocol (.inFile header payloads endSeen) = false :=
          decide_eq_false hasks
        rw [hasks', if_neg Bool.false_ne_true]
        refine Party.settles_write hact fun moment hcalm => (hmissed moment hcalm).mono ?_
        rintro said s (hlost | ⟨rfl, hlistens⟩)
        · exact .inl hlost
        · exact .inr ⟨rfl, hlistens⟩

/-- A receiver that waits for a leg in vain goes on waiting, asks for it again or gives up. -/
theorem settles_of_silence (h : Listens l place s) {timeout : Nat}
    {next : Except IoError Bytes → Moment → Receiver} (hact : act s.party = .read timeout next)
    {moment : Moment} (hcalm : moment.abort = false)
    (hstreaming : l.options.variant.isStreaming = false)
    (hattempts : l.options.protocol = .xmodem → l.options.config.crcHandshakeAttempts = 0) :
    Settles act (fun said s => s.party.Lost ∨
        (said = [] ∨ said = writes [if place.asks l.options.protocol
          then l.options.variant.handshake else .nak]) ∧
          ∃ retries, Listens { l with retries } place s)
      ⟨next (.ok []) moment, s.desk⟩ := by
  obtain ⟨p, d⟩ := s
  obtain ⟨hknown, purpose, deadline, hserving, hphase⟩ := h
  obtain ⟨hqueue, -, hnext⟩ := Party.listen_byte_eq_read ((act_of_listen hphase).symm.trans hact)
  have hreply : Known l place ⟨{ p with pending := [], moment }, d⟩ := by
    have hpending : l.pending = [] := hknown.matches_ledger.pending.symm.trans hqueue
    have hsame : { l with pending := [] } = l := by rw [← hpending]
    have hqueued := (hknown.queue []).reply hcalm
    rwa [hsame] at hqueued
  -- There is time left, or the wait was in vain.
  rcases hnext moment with hwaiting | hsilence
  · rw [hwaiting]
    exact .here (.inr ⟨.inl rfl, l.retries, hreply.goto _, purpose, deadline, hserving, rfl⟩)
  · rw [hsilence]
    refine (settles_judge_silence hreply hserving hstreaming hattempts).mono ?_
    rintro said s (hlost | ⟨hsaid, hlistens⟩)
    · exact .inl hlost
    · exact .inr ⟨.inr hsaid, hlistens⟩

end

end BlockTransfer.Receiver

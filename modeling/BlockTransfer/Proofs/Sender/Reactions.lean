import BlockTransfer.Proofs.Journey
import BlockTransfer.Proofs.Seat

/-!
# What a sender does with what it hears

Between two readings a sender is in one of a few states: it waits to be asked for its next leg, it
has offered a leg and waits for the answer, or it is in the middle of a stream. For each of these
states and each thing that can be heard in it, a theorem says what the sender writes and in which
state it waits again.

## Main definitions

* `Sender.Ledger` and `Sender.Matches`: what is known of a sender that is not told by its step.
* `Sender.Waits`, `Sender.Offers`, `Sender.Streams`, `Sender.Done`: the states between readings.
* `Sender.Sent`: the state after a leg has been sent for the first time.

## Main results

* `Sender.settles_start`: the first leg that a sender waits to be asked for.
* `Sender.settles_of_invitation`, `Sender.settles_of_ack`, `Sender.settles_of_nak`,
  `Sender.settles_of_request`: the reactions to signals.
* `Sender.settles_of_silence`, `Sender.settles_of_silence_waits`, `Sender.settles_of_nothing`: the
  reactions to readings in vain.
-/

namespace BlockTransfer.Sender

open Seat (Settles)

/-! ## States between readings -/

/-- What is known of a sender, whatever it is about to do. -/
structure Ledger where
  /-- The options. -/
  options : Options
  /-- The files that are not complete, with what has not been fetched of them. -/
  files : List (FileHeader × Bytes)
  /-- The block check in force. -/
  trailer : Trailer
  /-- Whether blocks are sent without waiting for answers. -/
  streaming : Bool
  /-- The bytes that have arrived and not been used yet. -/
  pending : Bytes
  /-- The number of blocks that are counted. -/
  blocks : Nat
  /-- The number of failed attempts. -/
  retries : Nat

/-- A sender is as the ledger says, and no stop has been requested. -/
structure Matches (l : Ledger) (s : Seat Sender) : Prop where
  options : s.party.options = l.options
  calm : s.party.moment.abort = false
  headers : s.party.job.files = l.files.map Prod.fst
  contents : s.desk.sources.drop s.party.job.index = l.files.map Prod.snd
  trailer : s.party.trailer = l.trailer
  streaming : s.party.streaming = l.streaming
  pending : s.party.pending = l.pending
  blocks : s.party.session.totalBlocks = l.blocks
  retries : s.party.session.totalRetries = l.retries

/-- What a sender waits to be asked for, and the legs that are left. -/
inductive Awaited (l : Ledger) : Invitation → List Leg → Prop
  | file {file : FileHeader × Bytes} {files : List (FileHeader × Bytes)}
      (hfiles : l.files = file :: files) : Awaited l .file (journey l.options (file :: files))
  | data {header : FileHeader} {content : Bytes} {files : List (FileHeader × Bytes)}
      (hfiles : l.files = (header, content) :: files) :
      Awaited l .data (fileLegs l.options 1 content ++ journey l.options files)
  | endOfBatch (hfiles : l.files = []) : Awaited l .endOfBatch [.endOfBatch]

/-- What a sender offers with some block number, the leg that it conveys, and the legs that are
left after that. -/
inductive Due (l : Ledger) : Item → Nat → Leg → List Leg → Prop
  | header {header : FileHeader} {content : Bytes} {files : List (FileHeader × Bytes)}
      {number : Nat} (hfiles : l.files = (header, content) :: files) :
      Due l .header number (.header header)
        (fileLegs l.options 1 content ++ journey l.options files)
  | block {header : FileHeader} {content piece : Bytes} {files : List (FileHeader × Bytes)}
      {number : Nat} (hfiles : l.files = (header, content) :: files) :
      Due l (.block piece) number (.data (pieceBlock l.options number piece))
        (fileLegs l.options (number + 1) content ++ journey l.options files)
  | endOfFile {header : FileHeader} {files : List (FileHeader × Bytes)} {number : Nat}
      (hfiles : l.files = (header, []) :: files) :
      Due l .endOfFile number .endOfFile (journey l.options files)
  | endOfBatch {number : Nat} (hfiles : l.files = []) :
      Due l .endOfBatch number .endOfBatch []

/-- A sender waits to be asked for the first of the legs that are left. -/
structure Waits (l : Ledger) (legs : List Leg) (s : Seat Sender) : Prop where
  known : Matches l s
  step : ∃ invitation deadline, Awaited l invitation legs ∧
    s.party.phase = .doing (.listen invitation (.byte deadline))

/-- A sender has offered a leg and waits for the answer. -/
structure Offers (l : Ledger) (spare : Bool) (leg : Leg) (legs : List Leg) (s : Seat Sender) :
    Prop where
  known : Matches l s
  step : ∃ item number deadline, Due l item number leg legs ∧
    s.party.session.blockNumber = UInt8.ofNat number ∧
    s.party.phase = .doing (.answer item spare (.byte deadline))

/-- A sender has just sent a block in a stream. -/
structure Streams (l : Ledger) (legs : List Leg) (s : Seat Sender) : Prop where
  known : Matches l s
  step : ∃ piece number leg, Due l (.block piece) number leg legs ∧
    s.party.session.blockNumber = UInt8.ofNat number ∧ s.party.phase = .doing (.drain piece)

/-- A sender is through. -/
structure Done (l : Ledger) (s : Seat Sender) : Prop where
  known : Matches l s
  phase : ∃ summary, s.party.phase = .over (.ok (.completed summary)) ∧
    summary.blocks = l.blocks ∧ summary.retries = l.retries

/-- A sender waits to be asked for the next of the legs, or is through if none are left. -/
inductive Rests (l : Ledger) (legs : List Leg) (s : Seat Sender) : Prop
  | waits (h : Waits l legs s)
  | done (hlegs : legs = []) (h : Done l s)

/-- A sender has sent a leg for the first time. A header or a block in a stream is not
answered. -/
inductive Sent (l : Ledger) (leg : Leg) (legs : List Leg) (s : Seat Sender) : Prop
  | offered {files : List (FileHeader × Bytes)}
      (hkind : l.streaming = true → leg = .endOfFile ∨ leg = .endOfBatch)
      (h : Offers { l with files } (leg = .endOfFile) leg legs s)
  | streamed {files : List (FileHeader × Bytes)} (hstreaming : l.streaming = true)
      (hdata : leg.isData = true) (h : Streams { l with files } legs s)
  | announced {files : List (FileHeader × Bytes)} {header : FileHeader}
      (hstreaming : l.streaming = true) (hheader : leg = .header header)
      (h : Waits { l with files } legs s)

/-- What is awaited depends on options and files only. -/
theorem Awaited.congr {l l' : Ledger} {invitation : Invitation} {legs : List Leg}
    (h : Awaited l invitation legs) (hoptions : l'.options = l.options)
    (hfiles : l'.files = l.files) : Awaited l' invitation legs := by
  cases h with
  | file h =>
    rw [← hoptions]
    exact .file (hfiles.trans h)
  | data h =>
    rw [← hoptions]
    exact .data (hfiles.trans h)
  | endOfBatch h => exact .endOfBatch (hfiles.trans h)

/-- What is due depends on options and files only. -/
theorem Due.congr {l l' : Ledger} {item : Item} {number : Nat} {leg : Leg} {legs : List Leg}
    (h : Due l item number leg legs) (hoptions : l'.options = l.options)
    (hfiles : l'.files = l.files) : Due l' item number leg legs := by
  cases h with
  | header h =>
    rw [← hoptions]
    exact .header (hfiles.trans h)
  | block h =>
    rw [← hoptions]
    exact .block (hfiles.trans h)
  | endOfFile h =>
    rw [← hoptions]
    exact .endOfFile (hfiles.trans h)
  | endOfBatch h => exact .endOfBatch (hfiles.trans h)

/-- What has been sent does not depend on the files that were left before. -/
theorem Sent.of_files {l : Ledger} {files : List (FileHeader × Bytes)} {leg : Leg}
    {legs : List Leg} {s : Seat Sender} (h : Sent { l with files } leg legs s) :
    Sent l leg legs s := by
  cases h with
  | offered hkind h => exact .offered hkind h
  | streamed hstreaming hdata h => exact .streamed hstreaming hdata h
  | announced hstreaming hheader h => exact .announced hstreaming hheader h

section

variable {l : Ledger} {p : Sender} {d : Desk}

namespace Matches

theorem goto (h : Matches l ⟨p, d⟩) (step : Step) : Matches l ⟨p.goto step, d⟩ :=
  ⟨h.options, h.calm, h.headers, h.contents, h.trailer, h.streaming, h.pending, h.blocks,
    h.retries⟩

theorem reply (h : Matches l ⟨p, d⟩) {moment : Moment} (hcalm : moment.abort = false) :
    Matches l ⟨{ p with moment }, d⟩ :=
  ⟨h.options, hcalm, h.headers, h.contents, h.trailer, h.streaming, h.pending, h.blocks,
    h.retries⟩

theorem mapSession (h : Matches l ⟨p, d⟩) (f : Session → Session)
    (hblocks : (f p.session).totalBlocks = p.session.totalBlocks)
    (hretries : (f p.session).totalRetries = p.session.totalRetries) :
    Matches l ⟨p.mapSession f, d⟩ :=
  ⟨h.options, h.calm, h.headers, h.contents, h.trailer, h.streaming, h.pending,
    hblocks.trans h.blocks, hretries.trans h.retries⟩

theorem queue (h : Matches l ⟨p, d⟩) (pending : Bytes) :
    Matches { l with pending } ⟨{ p with pending }, d⟩ :=
  ⟨h.options, h.calm, h.headers, h.contents, h.trailer, h.streaming, rfl, h.blocks, h.retries⟩

/-- A reading in vain changes the moment only. -/
theorem vain (h : Matches l ⟨p, d⟩) (hqueue : p.pending = []) {moment : Moment}
    (hcalm : moment.abort = false) : Matches l ⟨{ p with pending := [], moment }, d⟩ :=
  ⟨h.options, hcalm, h.headers, h.contents, h.trailer, h.streaming, hqueue.symm.trans h.pending,
    h.blocks, h.retries⟩

end Matches

theorem act_of_phase {step : Step} (h : p.phase = .doing step) : act p = Sender.step p step := by
  simp only [act, Party.act, h]

theorem act_of_listen {invitation : Invitation} {task : Line.Task}
    (h : p.phase = .doing (.listen invitation task)) :
    act p = p.listen task (.listen invitation) (heardInvitation invitation task) :=
  act_of_phase h

theorem act_of_answer {item : Item} {spare : Bool} {task : Line.Task}
    (h : p.phase = .doing (.answer item spare task)) :
    act p = p.listen task (.answer item spare) (heardAnswer item spare task) :=
  act_of_phase h

theorem act_of_drain {piece : Bytes} (h : p.phase = .doing (.drain piece)) :
    act p = p.listen .poll (fun _ => .drain piece) (heardInStream piece) :=
  act_of_phase h

/-! ## Going on to the next reading -/

/-- A sender that is through is done. -/
theorem done_complete (h : Matches l ⟨p, d⟩) : Done l ⟨p.complete, d⟩ where
  known := ⟨h.options, h.calm, h.headers, h.contents, h.trailer, h.streaming, h.pending, h.blocks,
    h.retries⟩
  phase := ⟨_, rfl, h.blocks, h.retries⟩

/-- A wait for an invitation begins. -/
theorem settles_await {invitation : Invitation} {legs : List Leg} (h : Matches l ⟨p, d⟩)
    (hlegs : Awaited l invitation legs) :
    Settles act (fun said s => said = [] ∧ Waits l legs s) ⟨p.goto (.await invitation), d⟩ := by
  have hreset := h.mapSession (fun session => (session.enter .awaitHandshake).resetRetries) rfl rfl
  refine .silent rfl ?_
  refine Party.settles_unlessAborted rfl h.calm ?_
  exact .here ⟨rfl, (hreset.goto _).goto _, invitation, _, hlegs, rfl⟩

/-- The next file is taken up. -/
theorem settles_nextFile (h : Matches l ⟨p, d⟩) :
    Settles act (fun said s => said = [] ∧ Rests l (journey l.options l.files) s)
      ⟨p.goto .nextFile, d⟩ := by
  refine .silent rfl ?_
  have hheaders : (p.goto .nextFile).job.files = l.files.map Prod.fst := h.headers
  have hoptions : (p.goto .nextFile).options = l.options := h.options
  cases hfiles : l.files with
  | cons file files =>
    simp only [nextFile, hheaders, hfiles, List.map_cons]
    refine (settles_await (h.goto _) (.file hfiles)).mono ?_
    rintro said s ⟨hsaid, hwaits⟩
    exact ⟨hsaid, .waits hwaits⟩
  | nil =>
    simp only [nextFile, hheaders, hfiles, List.map_nil, hoptions, journey]
    -- A batch has an end of its own to be sent.
    cases l.options.protocol with
    | ymodem =>
      refine (settles_await (h.goto _) (.endOfBatch hfiles)).mono ?_
      rintro said s ⟨hsaid, hwaits⟩
      exact ⟨hsaid, .waits hwaits⟩
    | xmodem => exact .here ⟨rfl, .done rfl (done_complete (h.goto _))⟩

/-- What is offered is the message of the leg. -/
theorem frame_of_due {item : Item} {number : Nat} {leg : Leg} {legs : List Leg}
    (h : Matches l ⟨p, d⟩) (hdue : Due l item number leg legs)
    (hnumber : p.session.blockNumber = UInt8.ofNat number) :
    frame p item = leg.message l.trailer := by
  have hheaders : p.job.files = l.files.map Prod.fst := h.headers
  have htrailer : p.trailer = l.trailer := h.trailer
  have hoptions : p.options = l.options := h.options
  cases hdue with
  | header hfiles => simp [frame, hheaders, hfiles, htrailer, Leg.message, Leg.block?]
  | block hfiles =>
    rw [frame, dataBlock_eq hnumber, htrailer, hoptions]
    rfl
  | endOfFile hfiles => rfl
  | endOfBatch hfiles =>
    rw [frame, htrailer]
    rfl

/-- An item is offered. -/
theorem settles_offer {item : Item} {number : Nat} {leg : Leg} {legs : List Leg} (spare : Bool)
    (h : Matches l ⟨p, d⟩) (hdue : Due l item number leg legs)
    (hnumber : p.session.blockNumber = UInt8.ofNat number) :
    Settles act (fun said s => said = [leg.message l.trailer] ∧ Offers l spare leg legs s)
      ⟨p.goto (.offer item spare), d⟩ := by
  have hframe : frame (p.goto (.offer item spare)) item = leg.message l.trailer :=
    frame_of_due (h.goto _) hdue hnumber
  refine Party.settles_write (Party.unlessAborted_of_calm h.calm _) fun moment hcalm => ?_
  refine .silent rfl (.here ⟨by rw [hframe], ?_, item, number, _, hdue, hnumber, rfl⟩)
  exact (((h.goto _).reply hcalm).goto _).goto _

/-- A new item is offered. -/
theorem settles_begin {item : Item} {number : Nat} {leg : Leg} {legs : List Leg}
    (h : Matches l ⟨p, d⟩) (hdue : Due l item number leg legs)
    (hnumber : p.session.blockNumber = UInt8.ofNat number)
    (hkind : l.streaming = true → leg = .endOfFile ∨ leg = .endOfBatch) :
    Settles act (fun said s => said = [leg.message l.trailer] ∧ Sent l leg legs s)
      ⟨begin p item, d⟩ := by
  -- An end mark alone may be refused once at no cost.
  have hspare : decide (item = .endOfFile) = decide (leg = .endOfFile) := by
    cases hdue <;> simp
  have hreset : Matches l ⟨p.mapSession Session.resetRetries, d⟩ := h.mapSession _ rfl rfl
  refine (settles_offer (decide (item = .endOfFile)) hreset hdue hnumber).mono ?_
  rintro said s ⟨hsaid, hoffers⟩
  rw [hspare] at hoffers
  exact ⟨hsaid, .offered hkind hoffers⟩

/-- A reading from the current file. -/
theorem matches_fetched {header : FileHeader} {content : Bytes} (rest : Bytes)
    {files : List (FileHeader × Bytes)} (h : Matches l ⟨p, d⟩)
    (hfiles : l.files = (header, content) :: files) :
    d.sources[p.job.index]? = some content ∧
      Matches { l with files := (header, rest) :: files }
        ⟨p, { d with sources := d.sources.set p.job.index rest }⟩ := by
  -- The sources that are left are the contents that are left.
  have hcontents : d.sources.drop p.job.index = content :: files.map Prod.snd := by
    have := h.contents
    rwa [hfiles, List.map_cons] at this
  constructor
  · have hhead := congrArg (·[0]?) hcontents
    simpa using hhead
  · refine ⟨h.options, h.calm, ?_, ?_, h.trailer, h.streaming, h.pending, h.blocks, h.retries⟩
    · have hheaders := h.headers
      rwa [hfiles] at hheaders
    · change (d.sources.set p.job.index rest).drop p.job.index = rest :: files.map Prod.snd
      rw [List.drop_set, if_neg (Nat.lt_irrefl _), hcontents, Nat.sub_self, List.set_cons_zero]

theorem fetched_nil (s : Sender) (piece : Bytes) (most : Nat) :
    fetched s piece most (.ok []) = s.goto (.gathered piece) := by
  simp [fetched]

/-- A reading that brings less than was asked for is followed by another one. -/
theorem fetched_of_length_lt (s : Sender) (piece : Bytes) {data : Bytes} {most : Nat}
    (hne : data ≠ []) (h : data.length < most) :
    fetched s piece most (.ok data) = s.goto (.gather (piece ++ data)) := by
  simp [fetched, hne, Nat.not_le.mpr h, List.take_of_length_le (Nat.le_of_lt h)]

/-- A reading that brings what was asked for completes a piece. -/
theorem fetched_of_length_eq (s : Sender) (piece : Bytes) {data : Bytes} {most : Nat}
    (h : data.length = most) :
    fetched s piece most (.ok data) = s.goto (.gathered (piece ++ data)) := by
  simp [fetched, h, List.take_of_length_le (Nat.le_of_eq h)]

/-- A piece is gathered until it fills a block or the file ends, however little each reading
brings. -/
theorem settles_gather {post : List Bytes → Seat Sender → Prop} {header : FileHeader}
    {content : Bytes} {files : List (FileHeader × Bytes)} (piece : Bytes)
    (h : Matches l ⟨p, d⟩) (hfiles : l.files = (header, content) :: files)
    (hmissing : piece.length < l.options.variant.blockSize.length)
    (hs : ∀ (p' : Sender) (d' : Desk),
      Matches { l with files := (header, content.drop
        (l.options.variant.blockSize.length - piece.length)) :: files } ⟨p', d'⟩ →
      p'.session = p.session →
      Settles act post ⟨p'.goto (.gathered (piece ++ content.take
        (l.options.variant.blockSize.length - piece.length))), d'⟩) :
    Settles act post ⟨p.goto (.gather piece), d⟩ := by
  -- The induction is on what is missing, which every reading but the last one makes less.
  induction hmost : l.options.variant.blockSize.length - piece.length using
    Nat.strong_induction_on generalizing l p d piece content with
  | _ most ih =>
    have hoptions : p.options = l.options := h.options
    have hact : act (p.goto (.gather piece)) = .fetch p.job.index most fun reply moment =>
        fetched { p.goto (.gather piece) with moment } piece most reply := by
      rw [← hmost, ← hoptions]
      rfl
    rw [hmost] at hs
    obtain ⟨hsource, -⟩ := matches_fetched [] h hfiles
    refine .fetch hact hsource (by omega) fun moment data rest hcalm hserves => ?_
    have htake := hserves.take_eq
    have hdrop := hserves.drop_eq
    obtain ⟨heq, hle, hend⟩ := hserves
    obtain ⟨-, hrest⟩ := matches_fetched rest h hfiles
    rcases List.eq_nil_or_concat data with rfl | hdata
    · -- The file has ended.
      have hnil : rest = [] := hend rfl
      subst hnil
      have hcontent : content = [] := heq
      subst hcontent
      have hgo := hs { p with moment } _ (by rw [List.drop_nil]; exact hrest.reply hcalm) rfl
      rw [List.take_nil, List.append_nil] at hgo
      dsimp only
      rw [fetched_nil]
      exact hgo
    · have hne : data ≠ [] := by
        obtain ⟨front, last, rfl⟩ := hdata
        simp
      have hpos := List.length_pos_iff.mpr hne
      rcases Nat.lt_or_ge data.length most with hless | hfull
      · -- More is to be fetched.
        have hpiece : (piece ++ data).length = piece.length + data.length := List.length_append
        have hleft : l.options.variant.blockSize.length - (piece ++ data).length =
            most - data.length := by omega
        have hgo := ih (most - data.length) (by omega) (piece ++ data) (hrest.reply hcalm) rfl
          (by dsimp only; omega) ?_ hleft
        · dsimp only
          rw [fetched_of_length_lt _ _ hne hless]
          exact hgo
        · intro p' d' h' hsession
          dsimp only at h' ⊢
          rw [hleft] at h' ⊢
          rw [List.append_assoc, ← htake]
          exact hs p' d' (by rw [hdrop]; exact h') hsession
      · -- The piece is complete.
        have hlength : data.length = most := Nat.le_antisymm hle hfull
        rw [hlength, Nat.sub_self, List.take_zero, List.append_nil] at htake
        rw [hlength, Nat.sub_self, List.drop_zero] at hdrop
        have hgo := hs { p with moment } _ (by rw [hdrop]; exact hrest.reply hcalm) rfl
        rw [htake] at hgo
        dsimp only
        rw [fetched_of_length_eq _ _ hlength]
        exact hgo

/-- The end of a file is sent. -/
theorem settles_gathered_nil {header : FileHeader} {files : List (FileHeader × Bytes)}
    {number : Nat} (h : Matches l ⟨p, d⟩) (hfiles : l.files = (header, []) :: files)
    (hnumber : p.session.blockNumber = UInt8.ofNat number) :
    Settles act (fun said s => said = [Leg.endOfFile.message l.trailer] ∧
      Sent l .endOfFile (journey l.options files) s) ⟨p.goto (.gathered []), d⟩ := by
  have hfinish := (h.goto (.gathered [])).mapSession
    (fun session => (session.finishFile p.job.sent).enter .awaitEotAck) rfl rfl
  refine .silent rfl ?_
  exact settles_begin hfinish (.endOfFile hfiles) hnumber fun _ => .inl rfl

/-- A block is sent. -/
theorem settles_gathered {header : FileHeader} {content piece : Bytes}
    {files : List (FileHeader × Bytes)} {number : Nat} (h : Matches l ⟨p, d⟩)
    (hfiles : l.files = (header, content) :: files)
    (hnumber : p.session.blockNumber = UInt8.ofNat number) (hpiece : piece ≠ []) :
    Settles act (fun said s =>
      said = [(Leg.data (pieceBlock l.options number piece)).message l.trailer] ∧
        Sent l (.data (pieceBlock l.options number piece))
          (fileLegs l.options (number + 1) content ++ journey l.options files) s)
      ⟨p.goto (.gathered piece), d⟩ := by
  have hdue : Due l (.block piece) number _ _ := .block hfiles
  have hgathered := h.goto (.gathered piece)
  have hact : act (p.goto (.gathered piece)) = gathered (p.goto (.gathered piece)) piece := rfl
  have hpstreaming : (p.goto (.gathered piece)).streaming = l.streaming := h.streaming
  rw [gathered, hpstreaming] at hact
  cases hstreaming : l.streaming with
  | false =>
    -- The block is offered and has to be acknowledged.
    simp only [List.isEmpty_iff, hpiece, hstreaming, if_false, Bool.false_eq_true] at hact
    refine .silent hact ?_
    exact settles_begin hgathered hdue hnumber (by simp [hstreaming])
  | true =>
    -- The block is written, and the sender looks whether the receiver objects.
    simp only [List.isEmpty_iff, hpiece, hstreaming, if_false, if_true] at hact
    refine Party.settles_write hact fun moment hcalm => .here ⟨?_, ?_⟩
    · rw [frame_of_due hgathered hdue hnumber]
    · refine .streamed hstreaming rfl ⟨(hgathered.reply hcalm).goto _, ?_⟩
      exact ⟨piece, number, _, hdue, hnumber, rfl⟩

/-- The next leg of a file is sent: a block if something is left of the file, and otherwise its
end. -/
theorem settles_nextPiece {header : FileHeader} {content : Bytes}
    {files : List (FileHeader × Bytes)} {number : Nat} {leg : Leg} {legs : List Leg}
    (h : Matches l ⟨p, d⟩) (hfiles : l.files = (header, content) :: files)
    (hnumber : p.session.blockNumber = UInt8.ofNat number)
    (hlegs : fileLegs l.options number content ++ journey l.options files = leg :: legs) :
    Settles act (fun said s => said = [leg.message l.trailer] ∧ Sent l leg legs s)
      ⟨p.goto .nextPiece, d⟩ := by
  have hsize := blockSize_pos l.options
  refine Party.settles_unlessAborted rfl h.calm ?_
  refine settles_gather [] (h.goto _) hfiles hsize fun p' d' h' hsession => ?_
  rw [List.nil_append]
  simp only [List.length_nil, Nat.sub_zero] at h' ⊢
  have hnumber' : p'.session.blockNumber = UInt8.ofNat number := by rw [hsession]; exact hnumber
  by_cases hcontent : content = []
  · -- The file ends.
    subst hcontent
    rw [fileLegs_nil, List.singleton_append, List.cons.injEq] at hlegs
    obtain ⟨rfl, rfl⟩ := hlegs
    rw [List.take_nil]
    rw [List.drop_nil] at h'
    refine (settles_gathered_nil h' rfl hnumber').mono ?_
    rintro said s ⟨hsaid, hsent⟩
    exact ⟨hsaid, hsent.of_files⟩
  · -- There is another block.
    rw [fileLegs_of_ne_nil hcontent, List.cons_append, List.cons.injEq] at hlegs
    obtain ⟨rfl, rfl⟩ := hlegs
    have hpiece : content.take l.options.variant.blockSize.length ≠ [] := by
      rw [ne_eq, List.take_eq_nil_iff]
      exact not_or.mpr ⟨Nat.ne_of_gt hsize, hcontent⟩
    refine (settles_gathered h' rfl hnumber' hpiece).mono ?_
    rintro said s ⟨hsaid, hsent⟩
    exact ⟨hsaid, hsent.of_files⟩

/-- The data of a file is begun. -/
theorem settles_beginData {header : FileHeader} {content : Bytes}
    {files : List (FileHeader × Bytes)} {leg : Leg} {legs : List Leg}
    (h : Matches l ⟨p, d⟩) (hfiles : l.files = (header, content) :: files)
    (hlegs : fileLegs l.options 1 content ++ journey l.options files = leg :: legs) :
    Settles act (fun said s => said = [leg.message l.trailer] ∧ Sent l leg legs s)
      ⟨beginData p, d⟩ := by
  have hheaders : p.job.files = l.files.map Prod.fst := h.headers
  rw [hfiles, List.map_cons] at hheaders
  simp only [beginData, hheaders]
  refine settles_nextPiece ?_ hfiles rfl hlegs
  exact ⟨h.options, h.calm, h.headers, h.contents, h.trailer, h.streaming, h.pending, h.blocks,
    h.retries⟩

/-- The header of a file is sent. In a stream the next thing to wait for is the request for the
data. -/
theorem settles_header {header : FileHeader} {content : Bytes}
    {files : List (FileHeader × Bytes)} (h : Matches l ⟨p, d⟩)
    (hfiles : l.files = (header, content) :: files) :
    Settles act (fun said s => said = [(Leg.header header).message l.trailer] ∧
        Sent l (.header header) (fileLegs l.options 1 content ++ journey l.options files) s)
      ⟨if p.streaming then p.goto .streamHeader else begin p .header, d⟩ := by
  have hnumber : p.session.blockNumber = UInt8.ofNat p.session.blockNumber.toNat :=
    UInt8.ofNat_toNat.symm
  have hdue : Due l .header p.session.blockNumber.toNat _ _ := .header hfiles
  have hpstreaming : p.streaming = l.streaming := h.streaming
  rw [hpstreaming]
  cases hstreaming : l.streaming with
  | false => exact settles_begin h hdue hnumber (by simp [hstreaming])
  | true =>
    -- The request for the data stands for the acknowledgement.
    have hframe := frame_of_due (h.goto .streamHeader) hdue hnumber
    have hact : act (p.goto .streamHeader) =
        (p.goto .streamHeader).write (frame (p.goto .streamHeader) .header) (.await .data) :=
      Party.unlessAborted_of_calm h.calm _
    refine Party.settles_write hact fun moment hcalm => ?_
    refine (settles_await ((h.goto _).reply hcalm) (.data hfiles)).mono ?_
    rintro said s ⟨rfl, hwaits⟩
    exact ⟨by rw [hframe], .announced hstreaming rfl hwaits⟩

/-- A block has been counted and the next leg of the file is sent. -/
theorem settles_counted {piece : Bytes} {number : Nat} {leg : Leg} {legs : List Leg}
    (h : Matches l ⟨p, d⟩) (hdue : Due l (.block piece) number leg legs)
    (hnumber : p.session.blockNumber = UInt8.ofNat number) :
    leg.isData = true ∧ ∃ next more, legs = next :: more ∧
      Settles act (fun said s => said = [next.message l.trailer] ∧
        Sent { l with blocks := l.blocks + 1 } next more s) ⟨p.goto (.counted piece), d⟩ := by
  cases hdue with
  | @block header content _ files _ hfiles =>
    -- A block is followed at least by the end mark.
    have hne : fileLegs l.options (number + 1) content ++ journey l.options files ≠ [] := by
      rw [fileLegs, List.append_assoc]
      simp
    obtain ⟨next, more, hlegs⟩ := List.exists_cons_of_ne_nil hne
    refine ⟨rfl, next, more, hlegs, ?_⟩
    refine Party.settles_report rfl fun moment hcalm => ?_
    have hcounted : Matches { l with blocks := l.blocks + 1 }
        ⟨{ p with
            session := p.session.completeBlock piece.length
            job := { p.job with sent := p.job.sent + piece.length }
            moment }, d⟩ :=
      ⟨h.options, hcalm, h.headers, h.contents, h.trailer, h.streaming, h.pending,
        congrArg (· + 1) h.blocks, h.retries⟩
    refine settles_nextPiece (hcounted.goto _) hfiles ?_ hlegs
    -- The number goes on modulo 256.
    change p.session.blockNumber + 1 = UInt8.ofNat (number + 1)
    rw [hnumber, UInt8.ofNat_add]
    rfl

/-- A sender that is asked for its next leg sends it. -/
theorem settles_invited {invitation : Invitation} {leg : Leg} {legs : List Leg}
    (h : Matches l ⟨p, d⟩) (hawaited : Awaited l invitation (leg :: legs)) :
    Settles act (fun said s => said = [leg.message l.trailer] ∧ Sent l leg legs s)
      ⟨p.goto (.invited invitation), d⟩ := by
  have henter := (h.goto (.invited invitation)).mapSession (·.enter .exchangingBlocks) rfl rfl
  refine .silent rfl ?_
  generalize hlegs : leg :: legs = all at hawaited
  cases hawaited with
  | @file file files hfiles =>
    obtain ⟨header, content⟩ := file
    have hprotocol : (p.goto (.invited .file)).options.protocol = l.options.protocol :=
      congrArg Options.protocol h.options
    cases hkind : l.options.protocol with
    | xmodem =>
      -- Without headers the data comes first.
      simp only [invited, hprotocol, hkind]
      simp only [journey, headerLegs, hkind, List.nil_append] at hlegs
      exact settles_beginData (h.goto _) hfiles hlegs.symm
    | ymodem =>
      simp only [invited, hprotocol, hkind]
      simp only [journey, headerLegs, hkind, List.singleton_append] at hlegs
      obtain ⟨rfl, rfl⟩ := List.cons.inj hlegs
      exact settles_header henter hfiles
  | data hfiles => exact settles_beginData (h.goto _) hfiles hlegs.symm
  | endOfBatch hfiles =>
    obtain ⟨rfl, rfl⟩ := List.cons.inj hlegs
    exact settles_begin henter (.endOfBatch hfiles) UInt8.ofNat_toNat.symm fun _ => .inr rfl

end

/-! ## Reactions -/

section

variable {l : Ledger} {s : Seat Sender} {leg : Leg} {legs : List Leg} {spare : Bool}

/-- A signal that asks for blocks, and the block check and flow that it asks for. -/
def mode? : Control → Option (Trailer × Bool)
  | .nak => some (.checksum, false)
  | .crcRequest => some (.crc, false)
  | .streamRequest => some (.crc, true)
  | .ack | .can | .eot => none

/-- The block check and the flow that a signal asks for are adopted. -/
theorem negotiate?_eq (s : Sender) (signal : Control) :
    negotiate? s signal =
      (mode? signal).map fun mode => { s with trailer := mode.1, streaming := mode.2 } := by
  cases signal <;> rfl

/-- A sender starts to wait to be asked for the first leg. -/
theorem settles_start {options : Options} {files : List (FileHeader × Bytes)} {moment : Moment}
    (hcheck : options.check = none) (hcalm : moment.abort = false)
    (hcount : options.protocol = .xmodem → files.length = 1) :
    Settles act (fun said s => said = [] ∧ ∃ l : Ledger, l.options = options ∧ l.pending = [] ∧
        l.blocks = 0 ∧ l.retries = 0 ∧ Rests l (journey options files) s)
      ⟨new options (files.map Prod.fst) moment, ⟨files.map Prod.snd, {}⟩⟩ := by
  have hknown : Matches ⟨options, files, options.variant.trailer, options.variant.isStreaming, [],
      0, 0⟩ ⟨new options (files.map Prod.fst) moment, ⟨files.map Prod.snd, {}⟩⟩ :=
    ⟨rfl, hcalm, rfl, rfl, rfl, rfl, rfl, rfl, rfl⟩
  have hstart : start (new options (files.map Prod.fst) moment) =
      (new options (files.map Prod.fst) moment).goto .nextFile := by
    have hsingle : ¬(options.protocol = .xmodem ∧ (files.map Prod.fst).length ≠ 1) := by
      rintro ⟨hxmodem, hne⟩
      exact hne (by rw [List.length_map]; exact hcount hxmodem)
    simp only [start, new, Party.new, hcheck, hsingle, if_false]
  refine .silent rfl ?_
  rw [hstart]
  refine (settles_nextFile hknown).mono ?_
  rintro said s ⟨hsaid, hrests⟩
  exact ⟨hsaid, _, rfl, rfl, rfl, rfl, hrests⟩

/-- A sender whose options no transfer can run with, or that has more or less than one file to send
without headers, gives up at once. -/
theorem settles_start_reject {options : Options} {files : List (FileHeader × Bytes)}
    {moment : Moment} {d : Desk}
    (h : ¬(options.check = none ∧ (options.protocol = .xmodem → files.length = 1))) :
    Settles act (fun _ s => s.party.Lost) ⟨new options (files.map Prod.fst) moment, d⟩ := by
  have hstart (p : Sender) (hcheck : p.options.check = none)
      (hcount : p.options.protocol = .xmodem ∧ p.job.files.length ≠ 1) : (start p).Lost := by
    simp only [start, hcheck, if_pos hcount]
    exact ⟨_, .inr rfl⟩
  refine .silent rfl (.here ?_)
  cases hcheck : options.check with
  | some error =>
    simp only [start, new, Party.new, hcheck]
    exact ⟨error, .inr rfl⟩
  | none =>
    refine hstart _ hcheck ?_
    change options.protocol = .xmodem ∧ (files.map Prod.fst).length ≠ 1
    rw [List.length_map]
    -- The number of files is what does not fit.
    by_contra hnot
    exact h ⟨hcheck, fun hxmodem => by_contra fun hne => hnot ⟨hxmodem, hne⟩⟩

/-- An invitation is followed by the next leg. -/
theorem settles_of_invitation {signal : Control} {rest : Bytes} {trailer : Trailer}
    {streaming : Bool} (h : Waits l (leg :: legs) s) (hpending : l.pending = signal.byte :: rest)
    (hmode : mode? signal = some (trailer, streaming)) :
    Settles act (fun said s => said = [leg.message trailer] ∧
      Sent { l with pending := rest, trailer, streaming } leg legs s) s := by
  obtain ⟨p, d⟩ := s
  obtain ⟨hknown, invitation, deadline, hawaited, hphase⟩ := h
  have hqueue : p.pending = signal.byte :: rest := hknown.pending.trans hpending
  have hmode' : Matches { l with pending := rest, trailer, streaming }
      ⟨({ p with pending := rest, trailer, streaming } : Sender).mapSession
        Session.resetRetries, d⟩ :=
    ⟨hknown.options, hknown.calm, hknown.headers, hknown.contents, rfl, rfl, rfl, hknown.blocks,
      hknown.retries⟩
  have hawaited' : Awaited { l with pending := rest, trailer, streaming } invitation
      (leg :: legs) := hawaited.congr rfl rfl
  refine .silent ((act_of_listen hphase).trans (Party.listen_byte_cons _ _ hqueue)) ?_
  -- Every signal that asks for blocks is understood.
  have hheard : heardInvitation invitation (.byte deadline) (some [signal.byte])
      { p with pending := rest } =
      (({ p with pending := rest, trailer, streaming } : Sender).mapSession
        Session.resetRetries).goto (.invited invitation) := by
    cases signal <;> simp_all [heardInvitation, negotiate?, mode?]
  rw [hheard]
  exact settles_invited hmode' hawaited'

/-- After a leg that is not a block has been acknowledged the sender waits to be asked for the next
one. -/
theorem settles_acknowledged {item : Item} {number : Nat} {p : Sender} {d : Desk}
    (h : Matches l ⟨p, d⟩) (hdue : Due l item number leg legs) (hdata : leg.isData = false) :
    Settles act (fun said s => said = [] ∧ ∃ files, Rests { l with files } legs s)
      ⟨p.goto (.acknowledged item), d⟩ := by
  have hreset := (h.goto (.acknowledged item)).mapSession Session.resetRetries rfl rfl
  refine .silent rfl ?_
  cases hdue with
  | header hfiles =>
    refine (settles_await hreset (.data hfiles)).mono ?_
    rintro said s ⟨hsaid, hwaits⟩
    exact ⟨hsaid, l.files, .waits hwaits⟩
  | block hfiles => cases hdata
  | @endOfFile header files _ hfiles =>
    -- The file and its source are done with.
    have hnext : Matches { l with files := files } ⟨{ p with
        session := p.session.resetRetries
        job := { p.job with files := p.job.files.tail, index := p.job.index + 1 } }, d⟩ := by
      have hheaders : p.job.files = l.files.map Prod.fst := h.headers
      have hcontents : d.sources.drop p.job.index = l.files.map Prod.snd := h.contents
      rw [hfiles, List.map_cons] at hheaders hcontents
      refine ⟨h.options, h.calm, ?_, ?_, h.trailer, h.streaming, h.pending, h.blocks, h.retries⟩
      · change p.job.files.tail = files.map Prod.fst
        rw [hheaders, List.tail_cons]
      · change d.sources.drop (p.job.index + 1) = files.map Prod.snd
        rw [← List.tail_drop, hcontents, List.tail_cons]
    refine (settles_nextFile hnext).mono ?_
    rintro said s ⟨hsaid, hrests⟩
    exact ⟨hsaid, files, hrests⟩
  | endOfBatch hfiles => exact .here ⟨rfl, l.files, .done rfl (done_complete hreset)⟩

/-- After a header, the end of a file or the end of the batch has been acknowledged the sender
waits to be asked for what is left, or is through. -/
theorem settles_of_ack {rest : Bytes} (h : Offers l spare leg legs s)
    (hpending : l.pending = Control.ack.byte :: rest) (hdata : leg.isData = false) :
    Settles act (fun said s => said = [] ∧ ∃ files, Rests { l with files, pending := rest } legs s)
      s := by
  obtain ⟨p, d⟩ := s
  obtain ⟨hknown, item, number, deadline, hdue, hnumber, hphase⟩ := h
  have hqueue : p.pending = Control.ack.byte :: rest := hknown.pending.trans hpending
  refine .silent ((act_of_answer hphase).trans (Party.listen_byte_cons _ _ hqueue)) ?_
  exact settles_acknowledged (hknown.queue rest) (hdue.congr rfl rfl) hdata

/-- After a block has been acknowledged the sender goes on with the next leg. -/
theorem settles_of_ack_data {rest : Bytes} (h : Offers l spare leg legs s)
    (hpending : l.pending = Control.ack.byte :: rest) (hdata : leg.isData = true) :
    ∃ next more, legs = next :: more ∧
      Settles act (fun said s => said = [next.message l.trailer] ∧
        Sent { l with pending := rest, blocks := l.blocks + 1 } next more s) s := by
  obtain ⟨p, d⟩ := s
  obtain ⟨hknown, item, number, deadline, hdue, hnumber, hphase⟩ := h
  have hqueue : p.pending = Control.ack.byte :: rest := hknown.pending.trans hpending
  have hdue' : Due { l with pending := rest } item number leg legs := hdue.congr rfl rfl
  -- The item that is answered is a block.
  obtain ⟨piece, rfl⟩ : ∃ piece, item = .block piece := by
    cases hdue with
    | block => exact ⟨_, rfl⟩
    | header => cases hdata
    | endOfFile => cases hdata
    | endOfBatch => cases hdata
  have hreset := ((hknown.queue rest).goto (.acknowledged (.block piece))).mapSession
    Session.resetRetries rfl rfl
  obtain ⟨-, next, more, hlegs, hs⟩ := settles_counted hreset hdue' hnumber
  refine ⟨next, more, hlegs, ?_⟩
  refine .silent ((act_of_answer hphase).trans (Party.listen_byte_cons _ _ hqueue)) ?_
  exact .silent rfl hs

/-- After a block has been sent in a stream and no signal has come, the sender goes on with the
next leg. -/
theorem settles_of_nothing (h : Streams l legs s) {timeout : Nat}
    {next : Except IoError Bytes → Moment → Sender} (hact : act s.party = .read timeout next)
    {moment : Moment} (hcalm : moment.abort = false) :
    ∃ leg more, legs = leg :: more ∧
      Settles act (fun said s => said = [leg.message l.trailer] ∧
        Sent { l with blocks := l.blocks + 1 } leg more s) ⟨next (.ok []) moment, s.desk⟩ := by
  obtain ⟨p, d⟩ := s
  obtain ⟨hknown, piece, number, leg, hdue, hnumber, hphase⟩ := h
  obtain ⟨hqueue, hnext⟩ := Party.listen_poll_eq_read ((act_of_drain hphase).symm.trans hact)
  have hreply := hknown.vain hqueue hcalm
  obtain ⟨-, next, more, hlegs, hs⟩ := settles_counted hreply hdue hnumber
  refine ⟨next, more, hlegs, ?_⟩
  rw [hnext]
  exact hs

/-! ### Arrivals -/

/-- A sender that waits to be asked takes in what arrives. -/
theorem waits_of_arrival (h : Waits l legs s) {timeout : Nat}
    {next : Except IoError Bytes → Moment → Sender} (hact : act s.party = .read timeout next)
    {arrived : Bytes} {moment : Moment} (hne : arrived ≠ []) (hcalm : moment.abort = false) :
    l.pending = [] ∧
      Waits { l with pending := arrived } legs ⟨next (.ok arrived) moment, s.desk⟩ := by
  obtain ⟨p, d⟩ := s
  obtain ⟨hknown, invitation, deadline, hawaited, hphase⟩ := h
  obtain ⟨hqueue, hnext, -⟩ := Party.listen_byte_eq_read ((act_of_listen hphase).symm.trans hact)
  refine ⟨hknown.pending.symm.trans hqueue, ?_⟩
  rw [hnext _ _ hne]
  exact ⟨((hknown.queue arrived).reply hcalm).goto _, invitation, deadline,
    hawaited.congr rfl rfl, rfl⟩

/-- A sender that waits for an answer takes in what arrives. -/
theorem offers_of_arrival (h : Offers l spare leg legs s) {timeout : Nat}
    {next : Except IoError Bytes → Moment → Sender} (hact : act s.party = .read timeout next)
    {arrived : Bytes} {moment : Moment} (hne : arrived ≠ []) (hcalm : moment.abort = false) :
    l.pending = [] ∧
      Offers { l with pending := arrived } spare leg legs
        ⟨next (.ok arrived) moment, s.desk⟩ := by
  obtain ⟨p, d⟩ := s
  obtain ⟨hknown, item, number, deadline, hdue, hnumber, hphase⟩ := h
  obtain ⟨hqueue, hnext, -⟩ := Party.listen_byte_eq_read ((act_of_answer hphase).symm.trans hact)
  refine ⟨hknown.pending.symm.trans hqueue, ?_⟩
  rw [hnext _ _ hne]
  exact ⟨((hknown.queue arrived).reply hcalm).goto _, item, number, deadline,
    hdue.congr rfl rfl, hnumber, rfl⟩

/-- A sender that waits to be asked reads if nothing has arrived. -/
theorem Waits.reads (h : Waits l legs s) (hpending : l.pending = []) :
    ∃ timeout next, act s.party = .read timeout next := by
  obtain ⟨invitation, deadline, -, hphase⟩ := h.step
  rw [act_of_listen hphase]
  exact Party.exists_listen_byte_eq_read _ _ (h.known.pending.trans hpending)

/-- A sender that waits for an answer reads if nothing has arrived. -/
theorem Offers.reads (h : Offers l spare leg legs s) (hpending : l.pending = []) :
    ∃ timeout next, act s.party = .read timeout next := by
  obtain ⟨item, number, deadline, -, -, hphase⟩ := h.step
  rw [act_of_answer hphase]
  exact Party.exists_listen_byte_eq_read _ _ (h.known.pending.trans hpending)

/-- A sender in a stream reads if nothing has arrived. -/
theorem Streams.reads (h : Streams l legs s) (hpending : l.pending = []) :
    ∃ timeout next, act s.party = .read timeout next := by
  obtain ⟨piece, number, leg, -, -, hphase⟩ := h.step
  rw [act_of_drain hphase]
  exact Party.exists_listen_poll_eq_read _ _ (h.known.pending.trans hpending)

/-- A sender that is through stops. -/
theorem Done.stops (h : Done l s) : ∃ ending, act s.party = .stop ending := by
  obtain ⟨summary, hphase, -⟩ := h.phase
  simp only [act, Party.act, hphase]
  exact ⟨_, rfl⟩

/-- A sender that waits to be asked has a leg to send. -/
theorem Waits.ne_nil (h : Waits l legs s) : legs ≠ [] := by
  obtain ⟨invitation, deadline, hawaited, -⟩ := h.step
  cases hawaited with
  | file => simp [journey, fileLegs]
  | data => simp [fileLegs]
  | endOfBatch => exact List.cons_ne_nil _ _

/-- What follows a block in a stream is not a header. -/
theorem Streams.ne_header (h : Streams l legs s) (file : FileHeader) (more : List Leg) :
    legs ≠ .header file :: more := by
  obtain ⟨piece, number, leg, hdue, -⟩ := h.step
  cases hdue with
  | @block header content piece files _ hfiles =>
    -- Either the end mark of the file follows or its next block.
    by_cases hcontent : content = []
    · simp [hcontent]
    · simp [fileLegs_of_ne_nil hcontent]

/-! ### Refusals and silence -/

/-- A failed attempt is counted. -/
theorem Matches.recordRetry {p : Sender} {d : Desk} (h : Matches l ⟨p, d⟩) :
    Matches { l with retries := l.retries + 1 } ⟨p.mapSession Session.recordRetry, d⟩ :=
  ⟨h.options, h.calm, h.headers, h.contents, h.trailer, h.streaming, h.pending, h.blocks,
    congrArg (· + 1) h.retries⟩

/-- After a failed attempt a leg is sent again, unless the sender gives up. -/
theorem settles_refused (spare : Bool) {item : Item} {number : Nat} {p : Sender} {d : Desk}
    (h : Matches l ⟨p, d⟩) (hdue : Due l item number leg legs)
    (hnumber : p.session.blockNumber = UInt8.ofNat number) :
    Settles act (fun said s => s.party.Lost ∨ said = [leg.message l.trailer] ∧
        Offers { l with retries := l.retries + 1 } spare leg legs s)
      ⟨refused p item spare, d⟩ := by
  rw [refused]
  rcases p.lost_or_retry_eq (stage p item) (.offer item spare) with hlost | hretry
  · exact .here (.inl hlost)
  · rw [hretry]
    refine (settles_offer spare h.recordRetry (hdue.congr rfl rfl) hnumber).mono ?_
    rintro said s ⟨hsaid, hoffers⟩
    exact .inr ⟨hsaid, hoffers⟩

/-- The first refusal of an end mark is followed by the same mark. -/
theorem settles_of_nak_spare {rest : Bytes} (h : Offers l true leg legs s)
    (hpending : l.pending = Control.nak.byte :: rest) :
    Settles act (fun said s => said = [leg.message l.trailer] ∧
      Offers { l with pending := rest } false leg legs s) s := by
  obtain ⟨p, d⟩ := s
  obtain ⟨hknown, item, number, deadline, hdue, hnumber, hphase⟩ := h
  have hqueue : p.pending = Control.nak.byte :: rest := hknown.pending.trans hpending
  refine .silent ((act_of_answer hphase).trans (Party.listen_byte_cons _ _ hqueue)) ?_
  exact settles_offer false (hknown.queue rest) (hdue.congr rfl rfl) hnumber

/-- A refusal is followed by the same leg, unless the sender gives up. -/
theorem settles_of_nak {rest : Bytes} (h : Offers l spare leg legs s)
    (hpending : l.pending = Control.nak.byte :: rest) :
    Settles act (fun said s => s.party.Lost ∨ said = [leg.message l.trailer] ∧
      ∃ spare retries, Offers { l with pending := rest, retries } spare leg legs s) s := by
  cases spare with
  | true =>
    refine (settles_of_nak_spare h hpending).mono ?_
    rintro said s ⟨hsaid, hoffers⟩
    exact .inr ⟨hsaid, false, l.retries, hoffers⟩
  | false =>
    obtain ⟨p, d⟩ := s
    obtain ⟨hknown, item, number, deadline, hdue, hnumber, hphase⟩ := h
    have hqueue : p.pending = Control.nak.byte :: rest := hknown.pending.trans hpending
    refine .silent ((act_of_answer hphase).trans (Party.listen_byte_cons _ _ hqueue)) ?_
    have hrefused := settles_refused false (hknown.queue rest) (hdue.congr rfl rfl) hnumber
    refine hrefused.mono ?_
    rintro said s (hlost | ⟨hsaid, hoffers⟩)
    · exact .inl hlost
    · exact .inr ⟨hsaid, false, _, hoffers⟩

/-- A request for blocks is no answer. -/
theorem settles_of_request {signal : Control} {rest : Bytes} (h : Offers l spare leg legs s)
    (hsignal : signal = .crcRequest ∨ signal = .streamRequest)
    (hpending : l.pending = signal.byte :: rest) :
    Settles act (fun said s => said = [] ∧ Offers { l with pending := rest } spare leg legs s)
      s := by
  obtain ⟨p, d⟩ := s
  obtain ⟨hknown, item, number, deadline, hdue, hnumber, hphase⟩ := h
  have hqueue : p.pending = signal.byte :: rest := hknown.pending.trans hpending
  refine .silent ((act_of_answer hphase).trans (Party.listen_byte_cons _ _ hqueue)) ?_
  -- The wait for an answer goes on with the same deadline.
  have hheard : heardAnswer item spare (.byte deadline) (some [signal.byte])
      { p with pending := rest } =
      ({ p with pending := rest } : Sender).goto (.answer item spare (.byte deadline)) := by
    rcases hsignal with rfl | rfl <;> rfl
  rw [hheard]
  exact .here ⟨rfl, (hknown.queue rest).goto _, item, number, deadline, hdue.congr rfl rfl,
    hnumber, rfl⟩

/-- A sender that waits for an answer in vain goes on waiting, sends the same leg again or gives
up. -/
theorem settles_of_silence (h : Offers l spare leg legs s) {timeout : Nat}
    {next : Except IoError Bytes → Moment → Sender} (hact : act s.party = .read timeout next)
    {moment : Moment} (hcalm : moment.abort = false) :
    Settles act (fun said s => s.party.Lost ∨ (said = [] ∨ said = [leg.message l.trailer]) ∧
      ∃ retries, Offers { l with retries } spare leg legs s)
      ⟨next (.ok []) moment, s.desk⟩ := by
  obtain ⟨p, d⟩ := s
  obtain ⟨hknown, item, number, deadline, hdue, hnumber, hphase⟩ := h
  obtain ⟨hqueue, -, hnext⟩ := Party.listen_byte_eq_read ((act_of_answer hphase).symm.trans hact)
  have hreply := hknown.vain hqueue hcalm
  rcases hnext moment with hwaiting | hsilence
  · rw [hwaiting]
    exact .here (.inr ⟨.inl rfl, l.retries, hreply.goto _, item, number, deadline, hdue, hnumber,
      rfl⟩)
  · rw [hsilence]
    refine (settles_refused spare hreply hdue hnumber).mono ?_
    rintro said s (hlost | ⟨hsaid, hoffers⟩)
    · exact .inl hlost
    · exact .inr ⟨.inr hsaid, _, hoffers⟩

/-- A sender that waits to be asked in vain goes on waiting or gives up. -/
theorem settles_of_silence_waits (h : Waits l legs s) {timeout : Nat}
    {next : Except IoError Bytes → Moment → Sender} (hact : act s.party = .read timeout next)
    {moment : Moment} (hcalm : moment.abort = false) :
    Settles act
      (fun said s => s.party.Lost ∨ said = [] ∧ ∃ retries, Waits { l with retries } legs s)
      ⟨next (.ok []) moment, s.desk⟩ := by
  obtain ⟨p, d⟩ := s
  obtain ⟨hknown, invitation, deadline, hawaited, hphase⟩ := h
  obtain ⟨hqueue, -, hnext⟩ := Party.listen_byte_eq_read ((act_of_listen hphase).symm.trans hact)
  have hreply := hknown.vain hqueue hcalm
  rcases hnext moment with hwaiting | hsilence
  · rw [hwaiting]
    exact .here (.inr ⟨rfl, l.retries, hreply.goto _, invitation, deadline, hawaited, rfl⟩)
  · rw [hsilence]
    -- The time is up, which is a failed attempt.
    simp only [heardInvitation]
    rcases Party.lost_or_retry_eq _ invitation.stage (Step.attempt invitation) with
      hlost | hretry
    · exact .here (.inl hlost)
    · rw [hretry]
      refine Party.settles_unlessAborted rfl hcalm (.here (.inr ⟨rfl, l.retries + 1, ?_⟩))
      exact ⟨(hreply.recordRetry.goto _).goto _, invitation, _, hawaited.congr rfl rfl, rfl⟩

end

end BlockTransfer.Sender

import BlockTransfer.Proofs.Lossless
import BlockTransfer.Proofs.Receiver.Alone
import BlockTransfer.Proofs.Receiver.Terms

/-!
# A sender that starts late

An XMODEM receiver asks for the first block until the sender is there, and all its requests wait on
the line. After some requests for the cyclic check it settles for the checksum, but a sender that
starts late acts on the oldest request. So the parties agree on the block check if and only if the
sender starts before the receiver has settled for the checksum.

## Main definitions

* `Sender.Commits`: a sender that sends its file with the cyclic check if the first signal that it
  hears asks for that.
* `Connection.Unhurried`: the states that are reached if nothing is lost, with readings in vain.
* `Connection.Checks`: with what block checks the parties write and read frames.

## Main results

* `Sender.Commits.ensures_act`: every act of a sender keeps to what the sender is committed to.
* `Connection.Unhurried.commits`: a late sender sends its file with the cyclic check.
* `Connection.Unhurried.trailer_receiver`: a receiver that has settled for the checksum keeps to it.
* `Connection.checks_of_late_start`: what becomes of a transfer with a late sender.
-/

namespace BlockTransfer

/-- What an act ensures holds after a move, with which nothing arrives. -/
theorem Action.Ensures.of_moves {σ : Type} {act : σ → Action σ} {post : Event → σ → Prop}
    {s s' : Seat σ} {said : List Bytes} (h : (act s.party).Ensures post)
    (hmove : Seat.Moves act s said s') : ∃ event, event.arrived = [] ∧ post event s'.party := by
  cases hmove with
  | silent hact =>
    rw [hact] at h
    exact ⟨_, rfl, h⟩
  | report hact =>
    rw [hact] at h
    exact ⟨_, rfl, h _⟩
  | write hact | fetch hact | openFile hact | store hact | closeFile hact =>
    rw [hact] at h
    exact ⟨_, rfl, h _ _⟩

/-- What an act ensures holds after a reading. -/
theorem Action.Ensures.of_read {σ : Type} {a : Action σ} {post : Event → σ → Prop}
    {timeout : Nat} {next : Except IoError Bytes → Moment → σ} (h : a.Ensures post)
    (hread : a = .read timeout next) (reply : Except IoError Bytes) (moment : Moment) :
    post (.read timeout reply) (next reply moment) := by
  rw [hread] at h
  exact h reply moment

namespace Sender

/-! ## A sender that is asked for the cyclic check -/

/-- Whether an item belongs to the data of a file. -/
def Item.isData : Item → Bool
  | .block _ | .endOfFile => true
  | .header | .endOfBatch => false

/-- Whether the first file has not been asked for at a step. -/
def Step.isEarly : Step → Bool
  | .start | .nextFile | .await .file | .attempt .file | .listen .file (.byte _) => true
  | _ => false

/-- Whether a step belongs to sending the data of a file that has been asked for. -/
def Step.isData : Step → Bool
  | .invited .file | .nextPiece | .gather _ | .gathered _ | .drain _ | .counted _ => true
  | .offer item _ | .sent item _ | .answer item _ _ | .acknowledged item => item.isData
  | _ => false

/-- A sender is at the data of its only file, with the cyclic check. -/
structure Sending (s : Sender) : Prop where
  xmodem : s.options.protocol = .xmodem
  single : s.job.files.length = 1
  trailer : s.trailer = .crc

/-- A sender of a single file sends it with the cyclic check, if the run is not over before. The
bytes are those that come after the ones that have arrived. -/
inductive Commits (coming : Bytes) (s : Sender) : Prop
  /-- The file has not been asked for, and the next signal asks for the cyclic check. -/
  | waits {step : Step} (hphase : s.phase = .doing step) (hearly : step.isEarly = true)
      (hxmodem : s.options.protocol = .xmodem) (hsingle : s.job.files.length = 1)
      (hcoming : (s.pending ++ coming).head? = some Control.crcRequest.byte)
  /-- The file is being sent. -/
  | sends {step : Step} (hphase : s.phase = .doing step) (hdata : step.isData = true)
      (h : Sending s)
  /-- The file has been sent. -/
  | ends (hphase : s.phase = .doing .nextFile) (hxmodem : s.options.protocol = .xmodem)
      (hfiles : s.job.files = [])
  /-- The run is over. -/
  | parted (h : s.Parted)

/-- What follows on an act, with the bytes that still come after it. -/
def Commits.After (coming : Bytes) (event : Event) (next : Sender) : Prop :=
  ∀ left, coming = event.arrived ++ left → Commits left next

section

variable {coming left : Bytes} {s : Sender} {step : Step}

theorem commits_fail (s : Sender) (e : TransferError) : Commits coming (s.fail e) :=
  .parted (Party.parted_fail s e)

theorem commits_abort (s : Sender) : Commits coming s.abort :=
  .parted (Party.parted_abort s)

/-! ### Waiting to be asked -/

/-- The signal that asks for the cyclic check is heard as such. -/
theorem heardInvitation_crcRequest (s : Sender) (task : Line.Task) :
    heardInvitation .file task (some [Control.crcRequest.byte]) s =
      (({ s with trailer := .crc, streaming := false } : Sender).mapSession
        Session.resetRetries).goto (.invited .file) :=
  rfl

/-- A sender that has heard nothing goes on waiting or gives up. -/
theorem commits_heardInvitation_none {task : Line.Task}
    (hxmodem : s.options.protocol = .xmodem) (hsingle : s.job.files.length = 1)
    (hcoming : (s.pending ++ left).head? = some Control.crcRequest.byte) :
    Commits left (heardInvitation .file task none s) := by
  apply Party.retry_induction
  · exact commits_fail _
  · exact .waits rfl rfl hxmodem hsingle hcoming

/-- A sender that listens for the first signal commits itself to the cyclic check. -/
theorem ensures_listen_commits {deadline : Nat} (hxmodem : s.options.protocol = .xmodem)
    (hsingle : s.job.files.length = 1)
    (hcoming : (s.pending ++ coming).head? = some Control.crcRequest.byte) :
    (Sender.step s (.listen .file (.byte deadline))).Ensures (Commits.After coming) := by
  -- Nothing is lost when the line is read.
  have hqueue {timeout : Nat} {queue : Bytes} (hread : (Line.Task.byte deadline).look s.pending
      s.moment.now = .read timeout queue) : s.pending = queue := by
    obtain ⟨used, hused, hnone⟩ := Line.Task.look_read hread
    rw [hused, hnone (Option.some_ne_none _), List.nil_append]
  apply Party.ensures_listen_of_look
  · rintro r hsettled left rfl
    obtain ⟨used, hused, hresult, hwanted⟩ := Line.Task.look_settled hsettled
    obtain ⟨byte, rfl⟩ := List.length_eq_one_iff.mp (Option.some.inj hwanted).symm
    -- The byte is the signal that was to come first.
    rw [hused] at hcoming
    cases hcoming
    rw [hresult, heardInvitation_crcRequest]
    exact .sends rfl rfl ⟨hxmodem, hsingle, rfl⟩
  · rintro timeout queue e e' moment hread left rfl
    exact commits_fail _ e'
  · rintro timeout queue arrived moment r hread hheard left rfl
    rw [hqueue hread] at hcoming
    simp only [Line.Task.hear] at hheard
    split at hheard
    · rename_i hvain
      cases hheard
      rw [Event.arrived, List.isEmpty_iff.mp hvain.1] at hcoming
      exact commits_heardInvitation_none hxmodem hsingle hcoming
    · cases hheard
  · rintro timeout queue arrived moment task left' hread hheard left rfl
    rw [hqueue hread, Event.arrived, ← List.append_assoc] at hcoming
    simp only [Line.Task.hear] at hheard
    split at hheard
    · cases hheard
    · cases hheard
      exact .waits rfl rfl hxmodem hsingle hcoming

/-- A sender that has not been asked for its file commits itself to the cyclic check. -/
theorem ensures_early_commits (hearly : step.isEarly = true)
    (hxmodem : s.options.protocol = .xmodem) (hsingle : s.job.files.length = 1)
    (hcoming : (s.pending ++ coming).head? = some Control.crcRequest.byte) :
    (Sender.step s step).Ensures (Commits.After coming) := by
  cases step with
  | start =>
    rintro left rfl
    unfold start
    split
    · exact .parted (Party.parted_reject _ _)
    · rw [if_neg (by simp [hsingle])]
      exact .waits rfl rfl hxmodem hsingle hcoming
  | nextFile =>
    rintro left rfl
    obtain ⟨header, hfiles⟩ := List.length_eq_one_iff.mp hsingle
    simp only [nextFile, hfiles]
    exact .waits rfl rfl hxmodem hsingle hcoming
  | await invitation =>
    cases invitation with
    | data | endOfBatch => cases hearly
    | file =>
      rintro left rfl
      exact .waits rfl rfl hxmodem hsingle hcoming
  | attempt invitation =>
    cases invitation with
    | data | endOfBatch => cases hearly
    | file =>
      apply Party.ensures_unlessAborted
      · rintro left rfl
        exact commits_abort s
      · rintro left rfl
        exact .waits rfl rfl hxmodem hsingle hcoming
  | listen invitation task =>
    cases invitation with
    | data | endOfBatch => cases hearly
    | file =>
      cases task with
      | exact | poll | quiet => cases hearly
      | byte deadline => exact ensures_listen_commits hxmodem hsingle hcoming
  | _ => cases hearly

/-! ### Sending the file -/

/-- A sender of data that goes on with data. -/
theorem Sending.commits (h : Sending s) (hdata : step.isData = true) :
    Commits left (s.goto step) :=
  .sends rfl hdata ⟨h.xmodem, h.single, h.trailer⟩

/-- A sender of data that writes goes on with data. -/
theorem Sending.ensures_write (h : Sending s) {data : Bytes} (hdata : step.isData = true) :
    (s.write data step).Ensures (Commits.After coming) := by
  apply Party.ensures_write
  · rintro reply moment e left rfl
    exact commits_fail _ e
  · rintro moment left rfl
    exact .sends rfl hdata ⟨h.xmodem, h.single, h.trailer⟩

/-- A sender of data that listens goes on with data, whatever it has heard. -/
theorem Sending.ensures_listen (h : Sending s) {task : Line.Task} {again : Line.Task → Step}
    {heard : Option Bytes → Sender → Sender} (hagain : ∀ task, (again task).isData = true)
    (hheard : ∀ left bytes s, Sending s → Commits left (heard bytes s)) :
    (s.listen task again heard).Ensures (Commits.After coming) := by
  apply Party.ensures_listen
  · intro used pending _ _ left _
    exact hheard _ _ _ ⟨h.xmodem, h.single, h.trailer⟩
  · intro timeout e e' moment pending left _
    exact commits_fail _ e'
  · intro timeout arrived moment used pending _ left _
    exact hheard _ _ _ ⟨h.xmodem, h.single, h.trailer⟩
  · intro timeout arrived moment used pending task' _ _ _ left _
    exact .sends rfl (hagain task') ⟨h.xmodem, h.single, h.trailer⟩

/-- A sender of data that has been refused repeats what it has sent or gives up. -/
theorem Sending.commits_refused (h : Sending s) {item : Item} {spare : Bool}
    (hdata : item.isData = true) : Commits left (refused s item spare) := by
  apply Party.retry_induction
  · exact commits_fail _
  · exact .sends rfl hdata ⟨h.xmodem, h.single, h.trailer⟩

theorem Sending.commits_heardAnswer (h : Sending s) {item : Item} {spare : Bool}
    {task : Line.Task} {bytes : Option Bytes} (hdata : item.isData = true) :
    Commits left (heardAnswer item spare task bytes s) := by
  unfold heardAnswer
  split
  · split
    · exact commits_fail s _
    · exact h.commits hdata
    · split
      · exact h.commits hdata
      · exact h.commits_refused hdata
    · exact h.commits hdata
  · exact h.commits_refused hdata

theorem Sending.commits_heardInStream (h : Sending s) {piece : Bytes} {bytes : Option Bytes} :
    Commits left (heardInStream piece bytes s) := by
  unfold heardInStream
  split
  · split
    · exact commits_fail s _
    · exact h.commits rfl
  · exact h.commits rfl

theorem Sending.commits_fetched (h : Sending s) {piece : Bytes} {most : Nat}
    {reply : Except IoError Bytes} : Commits left (fetched s piece most reply) := by
  unfold fetched
  split
  · split
    · exact h.commits rfl
    · exact commits_fail s _
  · dsimp only
    split <;> exact h.commits rfl

/-- A sender of data goes on with data until the end mark has been acknowledged. -/
theorem Sending.ensures_step (h : Sending s) (hdata : step.isData = true) :
    (Sender.step s step).Ensures (Commits.After coming) := by
  have habort : Commits.After coming .silent s.abort := by
    rintro left rfl
    exact commits_abort s
  cases step with
  | start | nextFile | await | attempt | listen | streamHeader => cases hdata
  | invited invitation =>
    cases invitation with
    | data | endOfBatch => cases hdata
    | file =>
      rintro left rfl
      obtain ⟨header, hfiles⟩ := List.length_eq_one_iff.mp h.single
      simp only [invited, beginData, h.xmodem, hfiles]
      exact .sends rfl rfl ⟨h.xmodem, h.single, h.trailer⟩
  | offer item spare => exact Party.ensures_unlessAborted habort (h.ensures_write hdata)
  | sent item spare =>
    rintro left rfl
    exact h.commits hdata
  | answer item spare task =>
    exact h.ensures_listen (fun _ => hdata) fun _ _ _ h => h.commits_heardAnswer hdata
  | acknowledged item =>
    rintro left rfl
    cases item with
    | header | endOfBatch => cases hdata
    | block piece => exact .sends rfl rfl ⟨h.xmodem, h.single, h.trailer⟩
    | endOfFile =>
      obtain ⟨header, hfiles⟩ := List.length_eq_one_iff.mp h.single
      refine .ends rfl h.xmodem ?_
      simp [acknowledged, Party.goto, Party.mapSession, hfiles]
  | nextPiece =>
    apply Party.ensures_unlessAborted habort
    rintro left rfl
    exact h.commits rfl
  | gather piece =>
    rintro reply moment left rfl
    have hmoment : Sending { s with moment } := ⟨h.xmodem, h.single, h.trailer⟩
    exact hmoment.commits_fetched
  | gathered piece =>
    simp only [Sender.step, gathered]
    split
    · rintro left rfl
      exact .sends rfl rfl ⟨h.xmodem, h.single, h.trailer⟩
    · split
      · exact h.ensures_write rfl
      · rintro left rfl
        exact .sends rfl rfl ⟨h.xmodem, h.single, h.trailer⟩
  | drain piece =>
    exact h.ensures_listen (fun _ => rfl) fun _ _ _ h => h.commits_heardInStream
  | counted piece =>
    rintro moment left rfl
    exact .sends rfl rfl ⟨h.xmodem, h.single, h.trailer⟩

/-- Whatever a sender does, it stays committed to the cyclic check. -/
theorem Commits.ensures_act (h : Commits coming s) :
    (act s).Ensures (Commits.After coming) := by
  cases h with
  | waits hphase hearly hxmodem hsingle hcoming =>
    rw [act_of_phase hphase]
    exact ensures_early_commits hearly hxmodem hsingle hcoming
  | sends hphase hdata h =>
    rw [act_of_phase hphase]
    exact h.ensures_step hdata
  | ends hphase hxmodem hfiles =>
    rw [act_of_phase hphase]
    rintro left rfl
    simp only [nextFile, hxmodem, hfiles]
    exact .parted (Party.parted_complete s)
  | parted hparted =>
    obtain ⟨ending, hphase | hphase⟩ := hparted
    · simp only [act, Party.act, hphase]
      rintro reply moment left rfl
      exact .parted ⟨ending, .inr rfl⟩
    · simp only [act, Party.act, hphase]
      trivial

/-- What a sender writes at a step is the frame of an item. -/
theorem exists_frame_of_write {data : Bytes} {next : Except IoError Nat → Moment → Sender}
    (hact : Sender.step s step = .write data next) : ∃ item, data = frame s item ∧
      (step = .streamHeader ∨ (∃ spare, step = .offer item spare) ∨
        ∃ piece, step = .gathered piece ∧ item = .block piece) := by
  have hlisten {task : Line.Task} {again : Line.Task → Step}
      {heard : Option Bytes → Sender → Sender} : s.listen task again heard ≠ .write data next := by
    unfold Party.listen
    split <;> simp
  have hwrite {data' : Bytes} {step : Step} (h : s.write data' step = .write data next) :
      data = data' := (Action.write.inj h).1.symm
  cases step with
  | start | nextFile | await | invited | sent | acknowledged => cases hact
  | attempt | nextPiece =>
    simp only [Sender.step, Party.unlessAborted] at hact
    split at hact <;> cases hact
  | listen | answer | drain => exact absurd hact hlisten
  | gather | counted => cases hact
  | streamHeader =>
    simp only [Sender.step, Party.unlessAborted] at hact
    split at hact
    · cases hact
    · exact ⟨.header, hwrite hact, .inl rfl⟩
  | offer item spare =>
    simp only [Sender.step, Party.unlessAborted] at hact
    split at hact
    · cases hact
    · exact ⟨item, hwrite hact, .inr (.inl ⟨spare, rfl⟩)⟩
  | gathered piece =>
    simp only [Sender.step, gathered] at hact
    split at hact
    · cases hact
    · split at hact
      · exact ⟨.block piece, hwrite hact, .inr (.inr ⟨piece, rfl, rfl⟩)⟩
      · cases hact

/-- What a sender writes that is committed to the cyclic check: frames of blocks with that, end
marks, and signals to give up. -/
theorem Commits.written (h : Commits coming s) {data : Bytes}
    {next : Except IoError Nat → Moment → Sender} (hact : act s = .write data next) :
    data = [Control.eot.byte] ∨ data = [Control.can.byte, Control.can.byte] ∨
      ∃ block : Block, data = block.encode .crc := by
  cases h with
  | @waits step hphase hearly =>
    rw [act_of_phase hphase] at hact
    -- Nothing is written before the file has been asked for.
    obtain ⟨item, -, rfl | ⟨spare, rfl⟩ | ⟨piece, rfl, -⟩⟩ := exists_frame_of_write hact
    · cases hearly
    · cases hearly
    · cases hearly
  | @sends step hphase hdata h =>
    rw [act_of_phase hphase] at hact
    have hitem (item : Item) (hdata : item.isData = true) :
        frame s item = [Control.eot.byte] ∨ ∃ block : Block, frame s item = block.encode .crc := by
      cases item with
      | header | endOfBatch => cases hdata
      | endOfFile => exact .inl rfl
      | block piece => exact .inr ⟨dataBlock s piece, by rw [frame, h.trailer]⟩
    obtain ⟨item, rfl, rfl | ⟨spare, rfl⟩ | ⟨piece, rfl, rfl⟩⟩ := exists_frame_of_write hact
    · cases hdata
    · exact (hitem item hdata).imp_right .inr
    · exact (hitem (.block piece) rfl).imp_right .inr
  | ends hphase =>
    rw [act_of_phase hphase] at hact
    cases hact
  | parted hparted =>
    obtain ⟨ending, hphase | hphase⟩ := hparted
    · simp only [act, Party.act, hphase, Action.write.injEq] at hact
      exact .inr (.inl hact.1.symm)
    · simp only [act, Party.act, hphase] at hact
      cases hact

/-- More bytes on the line do not matter to what comes first. -/
theorem Commits.append (h : Commits coming s) (more : Bytes) : Commits (coming ++ more) s := by
  cases h with
  | waits hphase hearly hxmodem hsingle hcoming =>
    refine .waits hphase hearly hxmodem hsingle ?_
    rw [← List.append_assoc, List.head?_append, hcoming]
    rfl
  | sends hphase hdata h => exact .sends hphase hdata h
  | ends hphase hxmodem hfiles => exact .ends hphase hxmodem hfiles
  | parted hparted => exact .parted hparted

/-- A sender of a single file is committed from its start if the first signal to come asks for the
cyclic check. -/
theorem commits_new {options : Options} (header : FileHeader) {moment : Moment}
    (hxmodem : options.protocol = .xmodem)
    (hcoming : coming.head? = some Control.crcRequest.byte) :
    Commits coming (new options [header] moment) :=
  .waits rfl rfl hxmodem rfl hcoming

end

end Sender

namespace Connection

variable {m : Medium} {start c c' : Connection}

/-! ## Runs in which nothing is lost -/

/-- The states that a connection can get to if nothing is lost, but readings may end in vain at any
time. -/
inductive Unhurried (start : Connection) : Connection → Prop
  /-- It starts there. -/
  | start : Unhurried start start
  /-- It gets there by a step. -/
  | step {c c' : Connection} (h : Unhurried start c) (hstep : Step .lossless c c') :
      Unhurried start c'
  /-- The sender reads in vain. -/
  | senderWaits {c : Connection} {timeout : Nat}
      {next : Except IoError Bytes → Moment → Sender} {moment : Moment} (h : Unhurried start c)
      (hread : Sender.act c.sender.party = .read timeout next) (hcalm : moment.abort = false) :
      Unhurried start { c with sender := ⟨next (.ok []) moment, c.sender.desk⟩ }
  /-- The receiver reads in vain. -/
  | receiverWaits {c : Connection} {timeout : Nat}
      {next : Except IoError Bytes → Moment → Receiver} {moment : Moment} (h : Unhurried start c)
      (hread : Receiver.act c.receiver.party = .read timeout next)
      (hcalm : moment.abort = false) :
      Unhurried start { c with receiver := ⟨next (.ok []) moment, c.receiver.desk⟩ }

theorem Reachable.unhurried (h : Reachable .lossless start c) : Unhurried start c := by
  induction h with
  | start => exact .start
  | step _ hstep ih => exact .step ih hstep

/-- A step does not change what a sender is committed to. -/
theorem Step.commits (hstep : Step .lossless c c')
    (h : Sender.Commits c.toSender.flatten c.sender.party) :
    Sender.Commits c'.toSender.flatten c'.sender.party := by
  cases hstep with
  | senderMoves hmove =>
    obtain ⟨event, harrived, hafter⟩ := h.ensures_act.of_moves hmove
    exact hafter _ (by rw [harrived, List.nil_append, senderMoved])
  | receiverMoves hmove =>
    rw [receiverMoved, List.flatten_append]
    exact h.append _
  | senderHears hread hdelivers =>
    exact h.ensures_act.of_read hread _ _ _ hdelivers.2.symm
  | receiverHears => exact h
  | senderPolls hphase hread => exact h.ensures_act.of_read hread _ _ _ rfl
  | senderLapses hlossy => exact hlossy.elim
  | receiverLapses hlossy => exact hlossy.elim
  | toSenderLoses hlossy => exact hlossy.elim
  | toReceiverLoses hlossy => exact hlossy.elim

/-- A late sender stays committed to the cyclic check if that has been asked for first. -/
theorem Unhurried.commits (h : Unhurried start c)
    (hstart : Sender.Commits start.toSender.flatten start.sender.party) :
    Sender.Commits c.toSender.flatten c.sender.party := by
  induction h with
  | start => exact hstart
  | step _ hstep ih => exact hstep.commits ih
  | senderWaits _ hread _ ih => exact ih.ensures_act.of_read hread _ _ _ rfl
  | receiverWaits _ _ _ ih => exact ih

/-- A receiver that has settled for the checksum keeps to it in each step. -/
theorem Step.trailer_receiver (hstep : Step m c c') (h : c.receiver.party.trailer = .checksum) :
    c'.receiver.party.trailer = .checksum := by
  have hensures := Receiver.ensures_trailer h
  cases hstep with
  | receiverMoves hmove =>
    obtain ⟨event, -, hafter⟩ := hensures.of_moves hmove
    exact hafter
  | receiverHears hread => exact hensures.of_read hread _ _
  | receiverLapses hlossy hread => exact hensures.of_read hread _ _
  | senderMoves => exact h
  | senderHears => exact h
  | senderPolls => exact h
  | senderLapses => exact h
  | toSenderLoses => exact h
  | toReceiverLoses => exact h

/-- A receiver that has settled for the checksum keeps to it. -/
theorem Unhurried.trailer_receiver (h : Unhurried start c)
    (hstart : start.receiver.party.trailer = .checksum) :
    c.receiver.party.trailer = .checksum := by
  induction h with
  | start => exact hstart
  | step _ hstep ih => exact hstep.trailer_receiver ih
  | senderWaits _ _ _ ih => exact ih
  | receiverWaits _ hread _ ih => exact (Receiver.ensures_trailer ih).of_read hread _ _

/-! ## What becomes of a late start -/

/-- The sender writes its frames with the cyclic check, and the receiver expects some block
check. -/
structure Checks (trailer : Trailer) (c : Connection) : Prop where
  /-- What the sender writes beside its frames are end marks and signals to give up. -/
  sender : ∀ data next, Sender.act c.sender.party = .write data next →
    data = [Control.eot.byte] ∨ data = [Control.can.byte, Control.can.byte] ∨
      ∃ block : Block, data = block.encode .crc
  /-- This is the block check with which frames are decoded. -/
  receiver : c.receiver.party.trailer = trailer

/-- A late sender writes its frames with the cyclic check if that has been asked for first. -/
theorem Unhurried.checks {trailer : Trailer} (h : Unhurried start c)
    (hstart : Sender.Commits start.toSender.flatten start.sender.party)
    (htrailer : c.receiver.party.trailer = trailer) : Checks trailer c :=
  ⟨fun _ _ => (h.commits hstart).written, htrailer⟩

/-- A receiver that ends up with the cyclic check has not settled for the checksum on its way. -/
theorem trailer_of_inevitable {plan : Plan} (h : Inevitable .lossless (Fulfils plan) start)
    (hplan : plan.trailer = .crc) (hreachable : Reachable .lossless start c) :
    c.receiver.party.trailer = .crc := by
  cases htrailer : c.receiver.party.trailer with
  | crc => rfl
  | checksum =>
    -- The receiver would keep to the checksum until the end.
    obtain ⟨last, hlast, hfulfils⟩ :=
      (h.reachable (fun _ _ hgoal => hgoal.not_step) hreachable).exists_reachable
    have hchecksum := hlast.unhurried.trailer_receiver htrailer
    rw [hfulfils.trailers.2, hplan] at hchecksum
    cases hchecksum

/-- A transfer whose sender starts before the receiver has settled for the checksum comes to its end
as planned. -/
theorem inevitable_fulfils_late {sending receiving : Options} {header : FileHeader}
    {content : Bytes} {sendingAt : Moment} {started failed : Nat} {late : Connection}
    (hsending : sending.protocol = .xmodem) (hreceiving : receiving.protocol = .xmodem)
    (hcheck : sending.check = none) (hcalm : sendingAt.abort = false)
    (hcrc : receiving.variant.handshake = .crcRequest)
    (hsender : late.sender = ⟨Sender.new sending [header] sendingAt, ⟨[content], {}⟩⟩)
    (hasks : Receiver.Asks receiving started
      (receiving.variant.handshake, receiving.variant.trailer) failed late.receiver)
    (htoSender : late.toSender =
      Receiver.writes (List.replicate (failed + 1) receiving.variant.handshake))
    (htoReceiver : late.toReceiver = []) :
    Inevitable .lossless
      (Fulfils { Plan.ofFiles sending receiving [(header, content)] with unanswered := failed })
      late := by
  have hroute : Route receiving.protocol (Receiver.Place.between.stage receiving.protocol)
      (journey sending [(header, content)]) := by
    rw [hreceiving]
    exact route_journey_xmodem hsending
  obtain ⟨left, hconverges⟩ := converges_inStep failed hcheck hroute (fun _ => rfl) hcalm
    (fun _ => hcrc) hsender hasks.listens htoSender htoReceiver
  exact inevitable_fulfils left hconverges

/-- A sender that starts late over a line that loses nothing, after requests that have gone
unanswered. It acts on the first of them, so its frames carry the cyclic check. If the receiver has
not settled for the checksum by then, it never does, and the transfer comes to its end. Otherwise
the parties disagree on the block check for good, even if readings end in vain. -/
theorem checks_of_late_start {sending receiving : Options} {header : FileHeader} {content : Bytes}
    {sendingAt receivingAt : Moment} {said : List Bytes} {receiver : Seat Receiver}
    (hsending : sending.protocol = .xmodem) (hreceiving : receiving.protocol = .xmodem)
    (hvariant : receiving.variant = .crc ∨ receiving.variant = .oneK)
    (hcheck : sending.check = none) (hcheck' : receiving.check = none)
    (hcalm : sendingAt.abort = false) (hcalm' : receivingAt.abort = false)
    (halone : Receiver.Alone ⟨Receiver.new receiving receivingAt, ⟨[], {}⟩⟩ said receiver)
    (hreads : ∃ timeout next, Receiver.act receiver.party = .read timeout next) :
    let attempts := receiving.config.crcHandshakeAttempts.toNat
    let late : Connection :=
      ⟨⟨Sender.new sending [header] sendingAt, ⟨[content], {}⟩⟩, receiver, said, []⟩
    (attempts = 0 ∨ said.length ≤ attempts →
      (∀ c, Reachable .lossless late c → Checks .crc c) ∧
      Inevitable .lossless
        (fun c => ∃ sent received, c.sender.party.phase = .over (.ok (.completed sent)) ∧
          c.receiver.party.phase = .over (.ok (.completed received)) ∧
          sent.retries = 0 ∧ received.retries + 1 = said.length ∧ sent.blocks = received.blocks ∧
          c.receiver.desk.sink = ⟨[arrival sending receiving.pad (header, content)], none⟩)
        late) ∧
    (attempts ≠ 0 ∧ attempts < said.length → ∀ c, Unhurried late c → Checks .checksum c) := by
  intro attempts late
  obtain ⟨timeout, next, hread⟩ := hreads
  have hcrc : receiving.variant.handshake = .crcRequest :=
    Variant.handshake_eq_crcRequest_iff.mpr hvariant
  have hcrc' : receiving.variant.trailer = .crc := by
    rcases hvariant with hvariant | hvariant <;> simp [hvariant, Variant.trailer]
  obtain ⟨failed, hsaid, hasks⟩ := halone.asks hcheck' hcalm' hread
  have hlength : said.length = failed + 1 := by
    rw [hsaid, Receiver.writes, List.length_map, Receiver.length_requests]
  -- The first request on the line is for the cyclic check.
  have hcommits : Sender.Commits late.toSender.flatten late.sender.party := by
    obtain ⟨more, hmore⟩ := Receiver.requests_eq_cons receiving failed
    refine Sender.commits_new header hsending ?_
    change said.flatten.head? = _
    rw [hsaid, hmore, hcrc]
    rfl
  constructor
  · intro hbefore
    have hfailed : attempts = 0 ∨ failed < attempts := by omega
    rw [Receiver.mode_eq (Receiver.not_fallsBack hfailed)] at hasks
    rw [Receiver.requests_eq_replicate (Receiver.not_fallsBack hfailed)] at hsaid
    have hinevitable : Inevitable .lossless (Fulfils _) late :=
      inevitable_fulfils_late hsending hreceiving hcheck hcalm hcrc rfl hasks hsaid rfl
    refine ⟨fun c hreachable => ?_, hinevitable.mono fun c hfulfils => ?_⟩
    · exact hreachable.unhurried.checks hcommits
        (trailer_of_inevitable hinevitable hcrc' hreachable)
    · obtain ⟨sent, hsent, hblocks, hretries⟩ := hfulfils.sender
      obtain ⟨received, hreceived, hblocks', hretries'⟩ := hfulfils.receiver
      refine ⟨sent, received, hsent, hreceived, hretries, ?_, hblocks.trans hblocks'.symm,
        hfulfils.sink⟩
      rw [hretries', hlength]
  · rintro ⟨hpos, hafter⟩ c hunhurried
    refine hunhurried.checks hcommits (hunhurried.trailer_receiver ?_)
    have hfalls : Receiver.FallsBack receiving failed :=
      ⟨hreceiving, hcrc, Nat.pos_of_ne_zero hpos, by omega⟩
    rw [Receiver.mode_eq_checksum hfalls] at hasks
    obtain ⟨stage, moment, deadline, -, rfl⟩ := hasks
    rfl

/-- A receiver that settles for the checksum after three requests, and a sender that is there after
two of them or after four. -/
theorem checks_of_late_start_two_or_four_requests :
    let sending : Options := { protocol := .xmodem, variant := .oneK }
    let receiving : Options := { protocol := .xmodem, variant := .crc }
    let content : Bytes := [97, 98, 99]
    let late (said : List Bytes) (receiver : Seat Receiver) : Connection :=
      ⟨⟨Sender.new sending [{ name := "a" }] ⟨0, false⟩, ⟨[content], {}⟩⟩, receiver, said, []⟩
    (∃ said receiver,
      Receiver.Alone ⟨Receiver.new receiving ⟨0, false⟩, ⟨[], {}⟩⟩ said receiver ∧
        said.length = 2 ∧ (∀ c, Reachable .lossless (late said receiver) c → Checks .crc c) ∧
        Inevitable .lossless
          (fun c => ∃ sent received, c.sender.party.phase = .over (.ok (.completed sent)) ∧
            c.receiver.party.phase = .over (.ok (.completed received)) ∧
            sent.retries = 0 ∧ received.retries + 1 = said.length ∧
            sent.blocks = received.blocks ∧
            c.receiver.desk.sink =
              ⟨[arrival sending receiving.pad ({ name := "a" }, content)], none⟩)
          (late said receiver)) ∧
    ∃ said receiver,
      Receiver.Alone ⟨Receiver.new receiving ⟨0, false⟩, ⟨[], {}⟩⟩ said receiver ∧
        said.length = 4 ∧ ∀ c, Unhurried (late said receiver) c → Checks .checksum c := by
  intro sending receiving content late
  constructor
  · obtain ⟨receiver, halone, hasks⟩ := Receiver.exists_alone receiving 1 rfl (Moment.abort_mk 0)
      (by decide)
    refine ⟨_, receiver, halone, rfl, ?_⟩
    exact (checks_of_late_start rfl rfl (.inl rfl) rfl rfl rfl rfl halone hasks.reads).1
      (.inr (by decide))
  · obtain ⟨receiver, halone, hasks⟩ := Receiver.exists_alone receiving 3 rfl (Moment.abort_mk 0)
      (by decide)
    refine ⟨_, receiver, halone, rfl, ?_⟩
    exact (checks_of_late_start rfl rfl (.inl rfl) rfl rfl rfl rfl halone hasks.reads).2
      ⟨by decide, by decide⟩

/-- A sender of a file that is not empty gets to send its first block, with the cyclic check if that
is what is asked for first. -/
theorem exists_reachable_frame {sending : Options} {header : FileHeader} {content : Bytes}
    {sendingAt : Moment} (late : Connection) {more : Bytes} (hsending : sending.protocol = .xmodem)
    (hcheck : sending.check = none) (hcalm : sendingAt.abort = false) (hcontent : content ≠ [])
    (hsender : late.sender = ⟨Sender.new sending [header] sendingAt, ⟨[content], {}⟩⟩)
    (hfirst : late.toSender.flatten = Control.crcRequest.byte :: more) :
    ∃ c, Reachable .lossless late c ∧ c.receiver = late.receiver ∧
      c.toReceiver = late.toReceiver ++
        [(Sender.pieceBlock sending 1
          (content.take sending.variant.blockSize.length)).encode .crc] := by
  have hjourney : journey sending [(header, content)] =
      .data (Sender.pieceBlock sending 1 (content.take sending.variant.blockSize.length)) ::
        fileLegs sending 2 (content.drop sending.variant.blockSize.length) := by
    simp [journey, headerLegs, hsending, fileLegs_of_ne_nil hcontent]
  have hstart : Seat.Settles Sender.act (fun said s => said = [] ∧ ∃ l : Sender.Ledger,
      l.options = sending ∧ l.pending = [] ∧ l.blocks = 0 ∧ l.retries = 0 ∧
        Sender.Rests l (journey sending [(header, content)]) s) late.sender := by
    rw [hsender]
    exact Sender.settles_start hcheck hcalm fun _ => rfl
  obtain ⟨said, s, hwaiting, rfl, l, -, hpending, -, -, hrests⟩ :=
    Reachable.start.exists_of_sender hstart
  rw [hjourney] at hrests
  cases hrests with
  | done hnil => cases hnil
  | waits hwaits =>
    -- All that is on the line arrives at once, and the first byte of it is used.
    obtain ⟨timeout, next, hread⟩ := hwaits.reads hpending
    have hne : late.toSender.flatten ≠ [] := by simp [hfirst]
    have hheard := hwaiting.step
      (.senderHears hread (Medium.lossless_delivers_all hne) (Moment.abort_mk 0))
    obtain ⟨-, hwaits'⟩ := Sender.waits_of_arrival hwaits hread hne (Moment.abort_mk 0)
    obtain ⟨said, s', hsent, rfl, -⟩ := hheard.exists_of_sender
      (Sender.settles_of_invitation hwaits' hfirst rfl)
    refine ⟨_, hsent, rfl, ?_⟩
    simp [senderMoved, Leg.message, Leg.block?]

/-- A receiver that settles for the checksum after one request is sent a block with the cyclic check
by a sender that starts after the next one. -/
theorem exists_reachable_disagreement :
    let sending : Options := { protocol := .xmodem, variant := .crc }
    let receiving : Options :=
      { protocol := .xmodem, variant := .crc, config := { crcHandshakeAttempts := 1 } }
    ∃ (receiver : Seat Receiver) (c : Connection),
      Receiver.Alone ⟨Receiver.new receiving ⟨0, false⟩, ⟨[], {}⟩⟩
        [[Control.crcRequest.byte], [Control.nak.byte]] receiver ∧
      (∃ timeout next, Receiver.act receiver.party = .read timeout next) ∧
      Reachable .lossless
        ⟨⟨Sender.new sending [{ name := "a" }] ⟨0, false⟩, ⟨[[97, 98, 99]], {}⟩⟩, receiver,
          [[Control.crcRequest.byte], [Control.nak.byte]], []⟩ c ∧
      c.toReceiver = [(Sender.pieceBlock sending 1 [97, 98, 99]).encode .crc] ∧
      c.receiver.party.trailer = .checksum := by
  intro sending receiving
  obtain ⟨receiver, halone, hasks⟩ := Receiver.exists_alone receiving 1 rfl (Moment.abort_mk 0)
    (by decide)
  obtain ⟨c, hreachable, hreceiver, hframe⟩ := exists_reachable_frame
    ⟨⟨Sender.new sending [{ name := "a" }] ⟨0, false⟩, ⟨[[97, 98, 99]], {}⟩⟩, receiver,
      [[Control.crcRequest.byte], [Control.nak.byte]], []⟩ rfl rfl (Moment.abort_mk 0)
    (List.cons_ne_nil _ _) rfl rfl
  have hreads := hasks.reads
  obtain ⟨stage, moment, deadline, -, rfl⟩ := hasks
  refine ⟨_, c, halone, hreads, hreachable, hframe, ?_⟩
  rw [hreceiver]
  rfl

end Connection

end BlockTransfer

import BlockTransfer.Proofs.Endings
import BlockTransfer.Proofs.Frame
import BlockTransfer.Proofs.Header
import BlockTransfer.Proofs.Receiver.Closing
import BlockTransfer.Proofs.Receiver.Dialogue

/-!
# Repeated blocks at a receiver

A receiver tells from the number of a block alone whether it is the next one or the one before that
has come again. Numbers come again after 256 blocks, and before the first block the number before
the next one is 0, whether or not a header with that number has come.

## Main definitions

* `Receiver.Delivery.latestNumber`: the number of the latest block of a file.
* `Receiver.stutter`: surroundings in which the last of 256 blocks comes again and again.

## Main results

* `Receiver.trace_judge_block`: which blocks of a file are accepted, which are acknowledged again
  and which end the run.
* `Receiver.answer_of_dialogue`: what is written in answer once there is data.
* `Receiver.run_stutter`: a receiver takes any number of blocks up to 256, and so comes to a block
  with the number 0.
-/

namespace BlockTransfer.Receiver

variable {ω : Type} {env : Surroundings ω} {options : Options} {moment : Moment} {w : ω}
  {acts : Nat} {before after : List (Act Receiver)} {a : Act Receiver} {s : Receiver}
  {block : Block}

namespace Delivery

variable {d : Delivery}

/-- The number of the next block of a file. -/
def nextNumber (d : Delivery) : UInt8 :=
  UInt8.ofNat (d.blocks.length + 1)

/-- The number of the latest block of a file, or 0, which is the number of its header, if there has
been none. -/
def latestNumber (d : Delivery) : UInt8 :=
  (d.blocks.getLast?.map (·.block.number)).getD 0

theorem Grown.latestNumber_eq (h : d.Grown) : d.latestNumber = UInt8.ofNat d.blocks.length := by
  rw [latestNumber, ← List.getLast?_map, h.numbers]
  cases d.blocks.length with
  | zero => rfl
  | succ count => simp [List.range_succ]

end Delivery

/-! ## Blocks in the middle of a file -/

/-- What a receiver does with a block in the middle of a file: it accepts the next one, acknowledges
the one before again unless blocks come in a stream, and gives up otherwise. -/
inductive Judges (s : Receiver) (block : Block) : Event → Receiver → Prop
  | accepts {next : Receiver} (hnumber : block.number = s.session.blockNumber) :
    Judges s block .silent next
  | repeats {reply : Except IoError Nat} {next : Receiver} (hstreaming : s.streaming = false)
      (hnumber : block.number = s.session.blockNumber - 1) :
    Judges s block (.write [Control.ack.byte] reply) next
  | refuses {next : Receiver} (hnext : block.number ≠ s.session.blockNumber)
      (hlatest : block.number = s.session.blockNumber - 1 → s.streaming = true)
      (hphase : next.phase =
        .cancelling (.error (.outOfSequence s.session.blockNumber block.number))) :
    Judges s block .silent next

theorem ensures_judges (hphase : s.phase = .doing (.judge .data (.block block))) :
    (act s).Ensures (Judges s block) := by
  refine ensures_act_of_course ?_ ?_ ?_
  · intro step hstep
    rw [hphase] at hstep
    cases hstep
    trivial
  · intro step event next hstep hcourse
    rw [hphase] at hstep
    cases hstep
    cases hcourse with
    | turns h =>
      cases h with
      | speaks h => cases h with
        | again hnumber hstreaming => exact .repeats hstreaming hnumber
      | bounded hnumber | held hnumber | released hnumber => exact .accepts hnumber
      | arrival htask => cases htask
    | breaks h =>
      cases h with
      | unread htask => exact absurd rfl htask
      | unwritten h => cases h with
        | again hnumber hstreaming => exact .repeats hstreaming hnumber
      | outOfSequence hnext hlatest => exact .refuses hnext hlatest rfl
    | completes h => cases h
    | aborts hhalts => cases hhalts
  · intro ending reply moment hcancelling
    simp [hphase] at hcancelling

/-- Whatever the peer does: of the blocks that come in the middle of a file a receiver that answers
each of them accepts just the one with the next number. One with the number of the latest block that
was accepted for the file, or with the number 0 if there is none, is acknowledged and nothing is
stored. Every other block ends the run: the receiver tells the peer to give up and does nothing
else. -/
theorem trace_judge_block (hanswers : options.variant.isStreaming = false)
    (h : Action.trace env act acts (new options moment) w = before ++ a :: after)
    (hblock : a.state.phase = .doing (.judge .data (.block block))) :
    ∃ (files : List Delivery) (d : Delivery),
      (∀ file ∈ files, file.Sound options.pad) ∧ d.Grown ∧
      deeds before = files.flatMap Delivery.deeds ++ d.begun ∧
      (block.number = d.nextNumber ∧ a.event = .silent ∧ deed a = some (.accepted block) ∨
        block.number = d.latestNumber ∧ deed a = none ∧
          (∃ reply, a.event = .write [Control.ack.byte] reply) ∨
        block.number ≠ d.nextNumber ∧ block.number ≠ d.latestNumber ∧ a.event = .silent ∧
          deed a = none ∧ ∃ (all : Nat) (told : Receiver) (reply : Except IoError Nat),
            (Action.run env act all (new options moment) w).ending =
              some (.error (.outOfSequence d.nextNumber block.number)) ∧
            Action.trace env act all (new options moment) w =
              before ++ [a, ⟨told, .write [Control.can.byte, Control.can.byte] reply⟩]) := by
  have hstreaming : a.state.streaming = false := by
    rw [((conversant_of_trace_eq h).doing _ hblock).2.1.streaming_eq, hanswers]
  obtain ⟨files, rest, hfiles, hdeeds, hrest⟩ :=
    ((standing_of_trace_eq h).underway hblock).at_region
  obtain ⟨sofar, next, w', w'', hstep, hevent, hruns⟩ := Action.exists_run_of_trace_eq h
  have hjudges := (ensures_judges hblock).of_step hstep
  rw [← hevent] at hjudges
  cases hrest with
  | @within d hgrown hfiling =>
    have hnumber : a.state.session.blockNumber = d.nextNumber := hfiling.number_eq
    have hlatest : a.state.session.blockNumber - 1 = d.latestNumber := by
      rw [hgrown.latestNumber_eq, hnumber, Delivery.nextNumber, UInt8.ofNat_add]
      exact UInt8.add_sub_cancel _ _
    refine ⟨files, d, hfiles, hgrown, hdeeds, ?_⟩
    have hdeed (hother : block.number ≠ a.state.session.blockNumber)
        (hquiet : deedOf a.event = none) : deed a = none := by
      rw [deed, show acceptance a.state = none by simp [acceptance, hblock, hother]]
      exact hquiet
    generalize hseen : a.event = event at hjudges
    cases hjudges with
    | accepts hnext =>
      refine .inl ⟨hnext.trans hnumber, rfl, ?_⟩
      rw [deed, show acceptance a.state = some (a.state.trailer, block) by
        simp [acceptance, hblock, hnext]]
    | repeats _ hrepeated =>
      refine .inr (.inl ⟨hrepeated.trans hlatest, hdeed ?_ (by rw [hseen]; rfl), _, rfl⟩)
      rw [hrepeated]
      exact sub_one_ne_self _
    | refuses hnext hrepeated hcancelling =>
      refine .inr (.inr ⟨hnumber ▸ hnext, ?_, rfl, hdeed hnext (by rw [hseen]; rfl), ?_⟩)
      · intro hsame
        have hstreams := hrepeated (hsame.trans hlatest.symm)
        rw [hstreaming] at hstreams
        cases hstreams
      · rw [← hnumber]
        exact Party.exists_told_of_cancelling hruns hcancelling

/-- A peer that leaves out three blocks after the first one. -/
def leaping (options : Options) : Script.Play where
  replies := [1, 5].map fun number =>
    [⟨0, .ok ((Sender.pieceBlock options number [97, 98, 99]).encode options.variant.trailer)⟩]

/-- The fifth block ends a run in which only the first has come. -/
theorem trace_judge_block_leaping :
    let setup : Script.Setup MemorySink := { sink := MemorySink.sink }
    let options : Options := { protocol := .xmodem, variant := .checksum }
    let env := Script.World.surroundings setup
    let w := Script.World.new setup (leaping options) [] {}
    options.variant.isStreaming = false ∧
    ∃ (before after : List (Act Receiver)) (a : Act Receiver) (block : Block) (d : Delivery),
      Action.trace env act 60 (new options ⟨0, false⟩) w = before ++ a :: after ∧
      a.state.phase = .doing (.judge .data (.block block)) ∧ block.number = 5 ∧ d.Grown ∧
      block.number ≠ d.nextNumber ∧ block.number ≠ d.latestNumber ∧
      ∃ all, (Action.run env act all (new options ⟨0, false⟩) w).ending =
        some (.error (.outOfSequence d.nextNumber block.number)) := by
  intro setup options env w
  let fifth := Sender.pieceBlock options 5 [97, 98, 99]
  have hleap : (Action.trace env act 60 (new options ⟨0, false⟩) w).any (fun a =>
      decide (came a.state = some (.block fifth)) && (acceptance a.state).isNone &&
        !a.event.writes) = true := by
    decide +kernel
  obtain ⟨a, hmem, hleap⟩ := List.any_eq_true.mp hleap
  simp only [Bool.and_eq_true, decide_eq_true_eq, Option.isNone_iff_eq_none,
    Bool.not_eq_true'] at hleap
  obtain ⟨⟨hcame, hnone⟩, hquiet⟩ := hleap
  obtain ⟨before, after, htrace⟩ := List.append_of_mem hmem
  have hphase := came_eq_some_iff.mp hcame
  obtain ⟨-, d, -, hgrown, -, hjudged⟩ := trace_judge_block rfl htrace hphase
  refine ⟨rfl, before, after, a, fifth, d, htrace, hphase, rfl, hgrown, ?_⟩
  rcases hjudged with ⟨-, hevent, hdeed⟩ | ⟨-, -, reply, hwrite⟩ | ⟨hnext, hlatest, -, -, all, -,
    -, hending, -⟩
  · -- Nothing is accepted.
    rw [deed, hnone, hevent] at hdeed
    cases hdeed
  · rw [hwrite] at hquiet
    cases hquiet
  · exact ⟨hnext, hlatest, all, hending⟩

/-- A receiver without headers acknowledges a block with the number 0 before it has accepted any
block, and the transfer goes on as if nothing had been wrong. -/
theorem rehearseReceive_of_zero_first :
    let setup : Script.Setup MemorySink := { sink := MemorySink.sink }
    let options : Options := { protocol := .xmodem, variant := .checksum }
    let block (number : Nat) : List Script.Chunk :=
      [⟨0, .ok ((Sender.pieceBlock options number [97, 98, 99]).encode .checksum)⟩]
    let play : Script.Play := { replies := [block 0, block 1, [⟨0, .ok [Control.eot.byte]⟩]] }
    let run := Script.rehearseReceive setup options (Script.World.new setup play [] {})
    run.ending = some (.ok (.completed ⟨[⟨none, 3⟩], 1, 3, 0, 0⟩)) ∧
      run.world.written =
        [[Control.nak.byte], [Control.ack.byte], [Control.ack.byte], [Control.ack.byte]] := by
  decide +kernel

/-! ## Answers once there is data -/

theorem dvd_of_ofNat_eq_zero {n : Nat} (h : UInt8.ofNat n = 0) : 256 ∣ n := by
  have hmod : n % 256 = 0 := by simpa using congrArg UInt8.toNat h
  exact Nat.dvd_of_mod_eq_zero hmod

/-- Whatever the peer does: once a block of a file has been accepted, what comes in the file is
answered with nothing but one acknowledgement or one refusal, and no block is refused. The signal
for the data is not written any more, except in a batch for a block with the number 0 that has come
again, and that happens only after a multiple of 256 blocks: such a block is taken for a repeated
header. Every other block that has the number of the latest one is answered with just one
acknowledgement, unless blocks come in a stream. -/
theorem answer_of_dialogue {later earlier : List Exchange} {x : Exchange}
    (h : dialogue (Action.trace env act acts (new options moment) w) = later ++ x :: earlier)
    (hdata : blocksOf earlier ≠ []) :
    (∀ data ∈ x.answer, data = [Control.ack.byte] ∨
      data = [Control.nak.byte] ∧ (∀ block, x.incoming ≠ .block block) ∨
      data = [options.variant.handshake.byte] ∧ options.protocol = .ymodem ∧
        256 ∣ (blocksOf earlier).length ∧
        ∃ block, x.incoming = .block block ∧ x.accepted = false ∧ block.number = 0) ∧
    (∀ block latest more, x.incoming = .block block → blocksOf earlier = latest :: more →
      block.number = latest.number → options.variant.isStreaming = false →
      x.accepted = false ∧ (x.answer = [[Control.ack.byte]] ∨ options.protocol = .ymodem ∧
        256 ∣ (blocksOf earlier).length ∧
        x.answer = [[Control.ack.byte], [options.variant.handshake.byte]])) := by
  have hfits := fits_of_dialogue h
  constructor
  · intro data hdata'
    cases hfits with
    | accepted _ hanswer => exact .inl (List.mem_singleton.mp (hanswer.subset hdata'))
    | repeated | lastMark => exact .inl (List.mem_singleton.mp hdata')
    | repeatedZero _ hnumber hprotocol hzero =>
      rcases List.mem_cons.mp hdata' with hack | hsignal
      · exact .inl hack
      · refine .inr (.inr ⟨List.mem_singleton.mp hsignal, hprotocol, ?_, _, rfl, rfl, hzero⟩)
        exact dvd_of_ofNat_eq_zero (hnumber.symm.trans hzero)
    | stray | silence => cases hdata'
    | firstMark | overdue => exact .inr (.inl ⟨List.mem_singleton.mp hdata', nofun⟩)
    | corrupt hanswer =>
      exact .inr (.inl ⟨List.mem_singleton.mp (hanswer.subset hdata'), nofun⟩)
    -- There has been a block.
    | unbegun _ _ hnone => exact absurd hnone hdata
  · intro block latest more hincoming hblocks hnumber hanswers
    have hsound := (conversant_run env options moment w acts).sound
    rw [h] at hsound
    have hsame : block.number = UInt8.ofNat (blocksOf earlier).length :=
      hnumber.trans (hsound.of_append.tail.number_eq hblocks)
    cases hfits with
    | accepted hnext =>
      cases hincoming
      rw [hsame, UInt8.ofNat_add] at hnext
      simp at hnext
    | repeated => exact ⟨rfl, .inl rfl⟩
    | repeatedZero _ _ hprotocol hzero =>
      cases hincoming
      exact ⟨rfl, .inr ⟨hprotocol, dvd_of_ofNat_eq_zero (hsame.symm.trans hzero), rfl⟩⟩
    | stray _ hrepeated =>
      cases hincoming
      rw [hrepeated hsame] at hanswers
      cases hanswers
    | firstMark | lastMark | corrupt | silence | overdue | unbegun => cases hincoming

/-- A block that comes twice is acknowledged twice. -/
theorem answer_of_dialogue_twice :
    let setup : Script.Setup MemorySink := { sink := MemorySink.sink }
    let options : Options := { protocol := .ymodem, variant := .checksum }
    let header : FileHeader := { name := "a" }
    let block := Sender.pieceBlock options 1 [97, 98, 99]
    let play : Script.Play :=
      { replies :=
          [[⟨0, .ok (header.toBlock.encode .checksum)⟩], [],
            [⟨0, .ok (block.encode .checksum ++ block.encode .checksum)⟩]] }
    ∃ acts later earlier x,
      dialogue (Action.trace (Script.World.surroundings setup) act acts (new options ⟨0, false⟩)
        (Script.World.new setup play [] {})) = later ++ x :: earlier ∧
      blocksOf earlier = [block] ∧ x.incoming = .block block ∧ x.accepted = false ∧
      x.answer = [[Control.ack.byte]] := by
  intro setup options header block play
  have hdialogue : dialogue (Action.trace (Script.World.surroundings setup) act 26
      (new options ⟨0, false⟩) (Script.World.new setup play [] {})) =
        [] ++ ⟨.block block, false, [[Control.ack.byte]]⟩ ::
          [⟨.block block, true, [[Control.ack.byte]]⟩] := by
    decide +kernel
  obtain ⟨haccepted, hanswer | ⟨-, hmany, -⟩⟩ :=
    (answer_of_dialogue hdialogue nofun).2 block block [] rfl rfl rfl rfl
  · exact ⟨26, [], _, _, hdialogue, rfl, rfl, haccepted, hanswer⟩
  · exact absurd hmany (by decide)

/-! ## A file of 256 blocks -/

section Stutter

variable {w' : ω} {purpose : Purpose}

/-- A receiver that waits for a block takes the frame of one if it comes at once. -/
theorem run_expect (hphase : s.phase = .doing (.expect purpose)) (hpending : s.pending = [])
    (hread : ∀ timeout, env.read w timeout = (.ok (block.encode s.trailer), w'))
    (hmoment : env.moment w' = s.moment) :
    Action.run env act 4 s w = ⟨none, s.goto (.judge purpose (.block block)), w'⟩ := by
  obtain ⟨options, session, trailer, streaming, pending, moment, job, phase⟩ := s
  subst hphase hpending hmoment
  let waiting (pending : Bytes) (step : Step) : Receiver :=
    ⟨options, session, trailer, streaming, pending, env.moment w', job, .doing step⟩
  let listen : Step := .listen purpose
    (.byte ((env.moment w').now + patience (waiting [] (.expect purpose)) purpose))
  let needed := Block.frameLength block.size trailer - 1
  let collects : Step := .collect purpose [block.size.marker] needed
    (.exact needed options.config.charTimeout.toNat
      ((env.moment w').now + options.config.charTimeout.toNat))
  have hexpect : (act (waiting [] (.expect purpose))).step env w = .ok (waiting [] listen, w) :=
    rfl
  have hlisten : (act (waiting [] listen)).step env w =
      .ok (waiting (block.encode trailer) listen, w') := by
    simp only [waiting, listen, act, Party.act, step, Party.listen, Line.Task.look, Action.step,
      hread]
    rfl
  have hmarker : (act (waiting (block.encode trailer) listen)).step env w' =
      .ok (waiting (block.encode trailer).tail collects, w') := by
    have hcollects : heardStart purpose (some [block.size.marker])
        (waiting (block.encode trailer).tail listen) =
          waiting (block.encode trailer).tail collects := by
      rw [heardStart_marker]
      exact collect_marker rfl
    rw [← hcollects]
    rfl
  have hcollect : (act (waiting (block.encode trailer).tail collects)).step env w' =
      .ok (waiting [] (.judge purpose (.block block)), w') := by
    have hlength : (block.encode trailer).tail.length = needed := by
      rw [List.length_tail, Block.length_encode]
    have htake := List.take_of_length_le hlength.le
    have hdrop := List.drop_of_length_le hlength.le
    have hdecode : Block.decode ([block.size.marker] ++ (block.encode trailer).tail) trailer =
        .ok block := Block.decode_encode block trailer
    simp only [waiting, collects, act, Party.act, step, Party.listen, Line.Task.look, hlength,
      le_refl, if_true, Action.step, heardRest, collect, htake, hdrop, hdecode]
    rfl
  change Action.run env act 4 (waiting [] (.expect purpose)) w = _
  rw [Action.run_succ_of_step hexpect, Action.run_succ_of_step hlisten,
    Action.run_succ_of_step hmarker, Action.run_succ_of_step hcollect]
  rfl

/-- A batch whose blocks have a cyclic check. -/
def batch : Options := { protocol := .ymodem, variant := .crc }

/-- The header of a file without contents. -/
def announcement : FileHeader := { name := "a", length := some 0 }

/-- A block without data. -/
def blank (number : Nat) : Block :=
  .padded (UInt8.ofNat number) [] .short 0

/-- Surroundings in which a file of 256 blocks comes, one block after the other, and the last block
again and again. The state is the number of blocks that have come, the header included. -/
def stutter : Surroundings Nat where
  read n _ :=
    let block := if n = 0 then announcement.toBlock else blank (min n 256)
    (.ok (block.encode .crc), n + 1)
  write n data := (.ok data.length, n)
  report n _ := n
  fetch n _ _ := (.ok [], n)
  openFile n _ := (.ok (), n)
  store n _ := (.ok (), n)
  closeFile n _ := (.ok (), n)
  moment _ := ⟨0, false⟩

/-- A receiver after so many blocks of the file. -/
def amid (blocks : Nat) (step : Step) : Receiver where
  options := batch
  session :=
    { role := .receiver, state := .exchangingBlocks, started := 0,
      blockNumber := UInt8.ofNat (blocks + 1), fileName := some "a", fileLength := some 0,
      fileBlocks := blocks, totalBlocks := blocks }
  trailer := .crc
  streaming := false
  pending := []
  moment := ⟨0, false⟩
  job := { handshake := .crcRequest, header := some announcement }
  phase := .doing step

theorem run_stutter_header :
    Action.run stutter act 11 (new batch ⟨0, false⟩) 0 = ⟨none, amid 0 (.nextBlock none), 1⟩ := by
  let asking (step : Step) : Receiver :=
    { new batch ⟨0, false⟩ with
      session := { role := .receiver, state := .awaitHandshake, started := 0 }
      phase := .doing step }
  let judge : Step := .judge (.solicited .header) (.block announcement.toBlock)
  have hasks : Action.run stutter act 3 (new batch ⟨0, false⟩) 0 =
      ⟨none, asking (.expect (.solicited .header)), 0⟩ := rfl
  have hheader : Action.run stutter act 4 (asking (.expect (.solicited .header))) 0 =
      ⟨none, asking judge, 1⟩ := run_expect rfl rfl (fun _ => rfl) rfl
  have hannounced : (act (asking judge)).step stutter 1 =
      .ok (asking (.announced announcement), 1) := by
    have hnumber : ¬announcement.toBlock.number ≠ 0 := by decide
    have hparse : FileHeader.parse announcement.toBlock.payload = .ok (some announcement) := by
      rw [FileHeader.parse_toBlock (by simp [announcement]) (by simp [announcement])]
      decide
    simp only [asking, judge, act, Party.act, step, judgeSolicited, new, Party.new, batch,
      readHeader, if_neg hnumber, hparse, Party.mapSession]
    rfl
  have hopens : Action.run stutter act 3 (asking (.announced announcement)) 1 =
      ⟨none, amid 0 (.nextBlock none), 1⟩ := rfl
  rw [show 11 = 3 + (4 + (3 + 1)) from rfl, Action.run_add (by rw [hasks]), hasks,
    Action.run_add (by rw [hheader]), hheader, Action.run_succ_of_step hannounced, hopens]

theorem run_stutter_block {blocks : Nat} (h : blocks < 256) :
    Action.run stutter act 9 (amid blocks (.nextBlock none)) (blocks + 1) =
      ⟨none, amid (blocks + 1) (.nextBlock none), blocks + 2⟩ := by
  let judge : Step := .judge .data (.block (blank (blocks + 1)))
  have hexpect : (act (amid blocks (.nextBlock none))).step stutter (blocks + 1) =
      .ok (amid blocks (.expect .data), blocks + 1) := rfl
  have hblock : Action.run stutter act 4 (amid blocks (.expect .data)) (blocks + 1) =
      ⟨none, amid blocks judge, blocks + 2⟩ := by
    refine run_expect rfl rfl (fun _ => ?_) rfl
    change (Except.ok ((blank (min (blocks + 1) 256)).encode .crc), blocks + 2) = _
    rw [Nat.min_eq_left h]
    rfl
  have hjudge : (act (amid blocks judge)).step stutter (blocks + 2) =
      .ok (amid blocks (.store [] 0), blocks + 2) := by
    have hnumber : (blank (blocks + 1)).number = (amid blocks judge).session.blockNumber := rfl
    have htake : take (amid blocks judge) (blank (blocks + 1)).payload =
        amid blocks (.store [] 0) := rfl
    change (judgeData (amid blocks judge) (.block (blank (blocks + 1)))).step stutter _ = _
    rw [judgeData, if_pos hnumber, htake]
    rfl
  have haccepts : Action.run stutter act 3 (amid blocks (.store [] 0)) (blocks + 2) =
      ⟨none, amid (blocks + 1) (.nextBlock none), blocks + 2⟩ := by
    have hnumber : UInt8.ofNat (blocks + 1) + 1 = UInt8.ofNat (blocks + 1 + 1) :=
      (UInt8.ofNat_add _ 1).symm
    unfold amid
    rw [← hnumber]
    rfl
  rw [Action.run_succ_of_step hexpect, show 8 = 4 + (3 + 1) from rfl,
    Action.run_add (by rw [hblock]), hblock, Action.run_succ_of_step hjudge, haccepts]

theorem run_stutter {blocks : Nat} (h : blocks ≤ 256) :
    Action.run stutter act (11 + blocks * 9) (new batch ⟨0, false⟩) 0 =
      ⟨none, amid blocks (.nextBlock none), blocks + 1⟩ := by
  induction blocks with
  | zero => exact run_stutter_header
  | succ blocks ih =>
    have hbefore := ih (Nat.le_of_succ_le h)
    rw [Nat.succ_mul, ← Nat.add_assoc, Action.run_add (by rw [hbefore]), hbefore]
    exact run_stutter_block h

/-- The signal for the data is written in the middle of a file: the 256th block is acknowledged
again when it comes again, and then taken for a repeated header. -/
theorem exists_dialogue_of_stutter :
    ∃ acts earlier, (blocksOf earlier).length = 256 ∧
      dialogue (Action.trace stutter act acts (new batch ⟨0, false⟩) 0) =
        ⟨.block (blank 256), false, [[Control.ack.byte], [Control.crcRequest.byte]]⟩ ::
          earlier := by
  have hblocks := run_stutter (Nat.le_refl 256)
  have hexpect : (act (amid 256 (.nextBlock none))).step stutter 257 =
      .ok (amid 256 (.expect .data), 257) := rfl
  have hblock : Action.run stutter act 4 (amid 256 (.expect .data)) 257 =
      ⟨none, amid 256 (.judge .data (.block (blank 256))), 258⟩ :=
    run_expect rfl rfl (fun _ => rfl) rfl
  have hrun : Action.run stutter act (11 + 256 * 9 + 5) (new batch ⟨0, false⟩) 0 =
      ⟨none, amid 256 (.judge .data (.block (blank 256))), 258⟩ := by
    rw [Action.run_add (by rw [hblocks]), hblocks, Action.run_succ_of_step hexpect, hblock]
  -- The blocks have been accepted, as the receiver has counted them.
  have hconversant := conversant_run stutter batch ⟨0, false⟩ 0 (11 + 256 * 9 + 5)
  rw [hrun] at hconversant
  have hkeeps : Keeps _ _ _ := (hconversant.doing _ rfl).2.2
  refine ⟨11 + 256 * 9 + 5 + 2, _, hkeeps.count_eq.symm, ?_⟩
  have hanswer : Action.trace stutter act 2 (amid 256 (.judge .data (.block (blank 256)))) 258 =
      [⟨amid 256 (.judge .data (.block (blank 256))), .write [Control.ack.byte] (.ok 1)⟩,
        ⟨amid 256 (.repeated 0), .write [Control.crcRequest.byte] (.ok 1)⟩] := by
    rfl
  rw [Action.trace_add, hrun, hanswer, dialogue, List.foldl_append]
  rfl

end Stutter

end BlockTransfer.Receiver

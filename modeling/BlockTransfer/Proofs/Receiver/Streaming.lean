import BlockTransfer.Proofs.Endings
import BlockTransfer.Proofs.Receiver.Dialogue
import BlockTransfer.Proofs.Receiver.Fallback
import BlockTransfer.Proofs.Receiver.Refusal

/-!
# Damaged blocks in a stream

In a stream nothing can be asked for again, so a damaged block in the middle of a file ends the run.
But where a block is asked for, a damaged one is refused as if blocks did not come in a stream.

## Main results

* `Receiver.trace_streaming`: what becomes of damaged blocks in a stream, and what is refused.
-/

namespace BlockTransfer.Receiver

section Acts

variable {s s' next : Receiver} {step step' : Step} {event : Event} {signal : Control}
  {data : Bytes} {reply : Except IoError Nat}

/-- What a receiver writes while it goes on is a signal, whether or not the channel takes it. -/
theorem Course.says_of_write (h : Course s step (.write data reply) next) :
    ∃ signal s' step', data = [signal.byte] ∧ Says s step signal s' step' := by
  cases h with
  | turns h =>
    cases h with
    | speaks h => exact ⟨_, _, _, rfl, h⟩
  | breaks h =>
    cases h with
    | unwritten h => exact ⟨_, _, _, rfl, h⟩
  | completes h => cases h

/-- A signal is written only as `Says` tells. -/
theorem ensures_signal (hplaced : ∀ step, s.phase = .doing step → s.Placed step) (signal : Control) :
    (act s).Ensures fun event _ => ∀ reply, event = .write [signal.byte] reply →
      ∃ step s' step', s.phase = .doing step ∧ Says s step signal s' step' := by
  refine ensures_act_of_course hplaced ?_ ?_
  · rintro step event next hphase hcourse reply rfl
    obtain ⟨signal', s', step', hdata, hsays⟩ := hcourse.says_of_write
    have hbyte := congrArg Control.ofByte? (List.singleton_inj.mp hdata)
    simp only [Control.ofByte?_byte, Option.some.injEq] at hbyte
    rw [← hbyte] at hsays
    exact ⟨step, s', step', hphase, hsays⟩
  · intro ending reply moment hphase reply' hwrite
    simp at hwrite

/-- In a stream a receiver refuses nothing but the first end mark of a file in a batch and, where it
awaits silence, damaged blocks. -/
theorem Says.refuses (h : Says s step signal s' step') (hnak : signal = .nak)
    (hstreaming : s.streaming = true) (hsignal : s.job.handshake ≠ .nak) :
    step = .judge .data .endOfFile ∧ s.options.protocol = .ymodem ∧ s.job.endSeen = false ∨
      ∃ purpose, step = .refuse purpose := by
  cases h with
  | prompt | announcedStream | signal | repeated => exact absurd hnak hsignal
  | refuse => exact .inr ⟨_, rfl⟩
  | endRefused hprotocol hfirst => exact .inl ⟨rfl, hprotocol, hfirst⟩
  | overdue hanswers =>
    rw [hstreaming] at hanswers
    cases hanswers
  | _ => cases hnak

/-- A receiver in a stream does not ask for blocks with a refusal. -/
theorem Bargains.handshake_ne_nak {options : Options} {past : List (Act Receiver)}
    (h : Bargains options past s) (hstream : options.variant.isStreaming = true) :
    s.job.handshake ≠ .nak := by
  have hoffer := Variant.handshake_of_isStreaming hstream
  rcases h.terms_eq with hterms | ⟨hcrc, -⟩
  · have hhandshake : s.job.handshake = options.variant.handshake := congrArg Prod.fst hterms
    rw [hhandshake, hoffer]
    decide
  · rw [hoffer] at hcrc
    cases hcrc

/-- Where a block is asked for, silence is awaited after a damaged one. -/
theorem act_of_damaged {stage : Stage} {e : FrameError}
    (hphase : s.phase = .doing (.judge (.solicited stage) (.corrupt e))) :
    act s = .silent (purge s (.solicited stage)) := by
  rw [act, Party.act, hphase]
  rfl

/-- In a stream a damaged block in the middle of a file is fatal. -/
theorem act_of_streamCorrupted {e : FrameError} (hstreaming : s.streaming = true)
    (hphase : s.phase = .doing (.judge .data (.corrupt e))) :
    act s = .silent (s.fail (.streamCorrupted e)) := by
  rw [act, Party.act, hphase]
  change judgeData s (.corrupt e) = _
  rw [judgeData, if_pos hstreaming]

end Acts

section Runs

variable {ω : Type} {env : Surroundings ω} {options : Options} {moment : Moment} {w : ω}
  {acts : Nat} {before after : List (Act Receiver)} {a : Act Receiver}

/-- Whatever the peer does: in a stream a damaged block in the middle of a file ends the run. The
receiver tells the peer to give up and does nothing else. But a damaged block that comes where one
is asked for, a header or the first block of a file without a header, is refused once the line is
silent. Nothing else is refused but the first end mark of a file in a batch. -/
theorem trace_streaming (hstream : options.variant.isStreaming = true)
    (h : Action.trace env act acts (new options moment) w = before ++ a :: after) :
    let period := options.config.purgeTimeout.toNat
    (∀ e, a.state.phase = .doing (.judge .data (.corrupt e)) →
      a.event = .silent ∧ ∃ (all : Nat) (told : Receiver) (reply : Except IoError Nat),
        (Action.run env act all (new options moment) w).ending =
          some (.error (.streamCorrupted e)) ∧
        Action.trace env act all (new options moment) w =
          before ++ [a, ⟨told, .write [Control.can.byte, Control.can.byte] reply⟩]) ∧
    (∀ stage e, a.state.phase = .doing (.judge (.solicited stage) (.corrupt e)) →
      a.event = .silent ∧ AwaitsSilence period after) ∧
    (∀ reply, a.event = .write [Control.nak.byte] reply →
      options.protocol = .ymodem ∧ a.state.phase = .doing (.judge .data .endOfFile) ∧
          marksOf (dialogue before) = 0 ∨
        ∃ (stage : Stage) (e : FrameError) (earlier waits : List (Act Receiver))
          (judged vain : Act Receiver),
          a.state.phase = .doing (.refuse (.solicited stage)) ∧ dialogue before = [] ∧
          before = earlier ++ judged :: (waits ++ [vain]) ∧
          judged.state.phase = .doing (.judge (.solicited stage) (.corrupt e)) ∧
          (∀ b ∈ waits, ∃ data, data ≠ [] ∧ b.event = .read period (.ok data)) ∧
          vain.event = .read period (.ok [])) := by
  intro period
  have hconversant := conversant_of_trace_eq h
  have hstreaming {step : Step} (hphase : a.state.phase = .doing step) :
      a.state.streaming = true := by
    rw [(hconversant.doing step hphase).2.1.streaming_eq, hstream]
  refine ⟨?_, ?_, ?_⟩
  · intro e hphase
    obtain ⟨sofar, next, w', w'', hstep, hevent, hruns⟩ := Action.exists_run_of_trace_eq h
    rw [act_of_streamCorrupted (hstreaming hphase) hphase] at hstep hevent
    cases hstep
    exact ⟨hevent, Party.exists_told_of_cancelling hruns rfl⟩
  · intro stage e hphase
    obtain ⟨-, hsettled, -⟩ := hconversant.doing _ hphase
    obtain ⟨_, more, next, w', w'', -, -, hstep, hevent, rfl⟩ := Action.exists_step_of_trace_eq h
    rw [act_of_damaged hphase] at hstep hevent
    cases hstep
    have hpurge : (purge a.state (.solicited stage)).phase =
        .doing (.purge (.solicited stage) (.quiet period)) := by
      simp only [purge, Party.goto, hsettled.options_eq, period]
    exact ⟨hevent, awaitsSilence_of_purge hpurge env more w'⟩
  · intro reply hnak
    obtain ⟨sofar, _, _, _, _, -, hstate, hstep, hevent, -⟩ := Action.exists_step_of_trace_eq h
    have hbargains := bargains_run env options moment w sofar
    rw [hstate] at hbargains
    have hsignal := hbargains.handshake_ne_nak hstream
    have hsignals := ensures_signal (fun step hphase => (hconversant.doing step hphase).1) .nak
    obtain ⟨step, s', step', hphase, hsays⟩ :=
      hsignals.of_step hstep reply (hevent.symm.trans hnak)
    obtain ⟨-, hsettled, htalks⟩ := hconversant.doing step hphase
    rcases hsays.refuses rfl (hstreaming hphase) hsignal with
      ⟨rfl, hprotocol, hfirst⟩ | ⟨purpose, rfl⟩
    · refine .inl ⟨by rw [← hsettled.options_eq, hprotocol], hphase, ?_⟩
      rw [Keeps.marks_eq htalks, hfirst]
      rfl
    · obtain ⟨-, -, hanswers, -, begun, vain, rfl, hdisturbed, hvain⟩ :=
        hushing_of_trace_eq h _ hphase
      cases purpose with
      | data =>
        have hnone := hanswers rfl
        rw [hstreaming hphase] at hnone
        cases hnone
      | solicited stage =>
        obtain ⟨earlier, judged, waits, e, rfl, hjudged, hwaits⟩ := hdisturbed
        exact .inr ⟨stage, e, earlier, waits, judged, vain, hphase, htalks.1, by simp, hjudged,
          hwaits, hvain⟩

/-- A peer that damages its header, sends it again, and damages the first block of its file. -/
def damaging (options : Options) : Script.Play where
  replies :=
    let header := (FileHeader.toBlock { name := "a" }).encode .crc
    let block := (Sender.pieceBlock options 1 [97, 98, 99]).encode .crc
    [header.set 2 0, header, block.set 2 0].map fun data => [⟨0, .ok data⟩]

set_option maxRecDepth 10000 in
/-- The header is refused when it is damaged, but a damaged block of the file ends the run. -/
theorem trace_streaming_damaging :
    let setup : Script.Setup MemorySink := { sink := MemorySink.sink }
    let options : Options := { protocol := .ymodem, variant := .streaming }
    let env := Script.World.surroundings setup
    let w := Script.World.new setup (damaging options) [] {}
    let run := Action.trace env act 60 (new options (env.moment w)) w
    options.variant.isStreaming = true ∧
    (∃ (before after : List (Act Receiver)) (a : Act Receiver) (reply : Except IoError Nat),
      run = before ++ a :: after ∧ a.event = .write [Control.nak.byte] reply ∧
      dialogue before = [] ∧ ∃ judged ∈ before, ∃ e,
        judged.state.phase = .doing (.judge (.solicited .header) (.corrupt e))) ∧
    ∃ (before after : List (Act Receiver)) (a : Act Receiver) (e : FrameError) (all : Nat),
      run = before ++ a :: after ∧ a.state.phase = .doing (.judge .data (.corrupt e)) ∧
      (Action.run env act all (new options (env.moment w)) w).ending =
        some (.error (.streamCorrupted e)) := by
  intro setup options env w run
  have hstream : options.variant.isStreaming = true := rfl
  have hrefused : run.any (fun a =>
      refusalOf a.state = some (.solicited .header) ∧ a.event.signals .nak = true) = true := by
    decide +kernel
  have hdamaged : run.any (fun a =>
      came a.state = some (.corrupt (.sequenceComplement 1 0))) = true := by
    decide +kernel
  refine ⟨hstream, ?_, ?_⟩
  · obtain ⟨a, hmem, hrefused⟩ := List.any_eq_true.mp hrefused
    obtain ⟨hrefusal, hnak⟩ := of_decide_eq_true hrefused
    have hphase := refusalOf_eq_some_iff.mp hrefusal
    obtain ⟨before, after, htrace⟩ := List.append_of_mem hmem
    obtain ⟨reply, hwrite⟩ := Event.exists_of_signals hnak
    obtain ⟨-, -, hrefusals⟩ := trace_streaming hstream htrace
    rcases hrefusals reply hwrite with ⟨-, hmark, -⟩ | hcut
    · rw [hphase] at hmark
      cases hmark
    · obtain ⟨stage, e, earlier, waits, judged, vain, hstage, hnone, hbefore, hjudged, -⟩ := hcut
      rw [hphase] at hstage
      cases hstage
      refine ⟨before, after, a, reply, htrace, hwrite, hnone, judged, ?_, e, hjudged⟩
      rw [hbefore]
      simp
  · obtain ⟨a, hmem, hdamaged⟩ := List.any_eq_true.mp hdamaged
    have hphase := came_eq_some_iff.mp (of_decide_eq_true hdamaged)
    obtain ⟨before, after, htrace⟩ := List.append_of_mem hmem
    obtain ⟨-, all, -, -, hending, -⟩ := (trace_streaming hstream htrace).1 _ hphase
    exact ⟨before, after, a, _, all, htrace, hphase, hending⟩

/-- A receiver of a batch in a stream refuses a damaged header. A sender that hears just what this
receiver has written sends its file with the checksum, although its header was not accepted. -/
theorem rehearse_of_damaged_header :
    let options : Options :=
      { protocol := .ymodem, variant := .streaming, config := { maxRetries := 2 } }
    let setup : Script.Setup MemorySink := { sink := MemorySink.sink }
    let header := (FileHeader.toBlock { name := "a" }).encode .crc
    let block := (Sender.pieceBlock options 1 [97, 98, 99]).encode .checksum
    let cancels : Bytes := [Control.can.byte, Control.can.byte]
    let play (initial : List Script.Chunk) (replies : List Bytes) : Script.Play :=
      { initial, replies := replies.map fun data => [⟨0, .ok data⟩] }
    let receiving := Script.rehearseReceive setup options
      (Script.World.new setup (play [] [header.set 2 0, block]) [] {})
    let sending := Script.rehearseSend setup options [{ name := "a" }]
      (Script.World.new setup (play [⟨0, .ok [Control.streamRequest.byte]⟩]
        [[Control.nak.byte], [Control.nak.byte], cancels]) [{ remaining := [97, 98, 99] }] {})
    receiving.ending = some (.error (.timeout .header 2)) ∧
      receiving.world.written =
        [[Control.streamRequest.byte], [Control.nak.byte], [Control.nak.byte], cancels] ∧
      sending.ending = some (.error .peerCancelled) ∧
      sending.world.written.tail = [block, block] := by
  decide +kernel

end Runs

end BlockTransfer.Receiver

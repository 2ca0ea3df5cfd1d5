import BlockTransfer.Proofs.Accounts.Receiver
import BlockTransfer.Proofs.Accounts.Sender
import BlockTransfer.Proofs.Endings
import BlockTransfer.Script.Rehearsal
import BlockTransfer.Sink.Memory

/-!
# The accounts of a transfer

Whatever the peer does, the reports of progress and the summary of a party say what has gone on in
its run. Each report gives the number of the block in its file and the useful bytes of the file so
far, there are as many reports as blocks have been counted, what is taken off a total has been added
before, and a summary lists the files in order, with the bytes that were read from each or that the
sink was told of.

## Main definitions

* `Accounted`: what a party tells of a run is right.

## Main results

* `accounted_of_run`: what senders and receivers tell of their runs is right.
-/

namespace BlockTransfer

variable {δ φ ω : Type}

/-- What a party tells of a run is right: its reports are as they should be, it has counted as many
blocks as it has reported, it has counted the bytes of a file among all bytes, and a summary adds up
the given files and the reports. -/
structure Accounted (spec : List (Act (Party δ φ)) → Party δ φ → Progress → Prop)
    (files : List FileReport) (trace : List (Act (Party δ φ)))
    (run : Action.Run (Party δ φ) ω) : Prop where
  reported : EachReport spec trace
  totalBlocks_eq : run.state.session.totalBlocks = (reports trace).length
  fileBytes_le : ∀ act ∈ trace, act.state.session.fileBytes ≤ act.state.session.totalBytes
  summary_eq : ∀ summary, run.ending = some (.ok (.completed summary)) →
    summary.files = files ∧ summary.blocks = (reports trace).length ∧
      summary.bytes = (files.map (·.bytes)).sum

/-- The books of a party are right after a run: its session has counted what is in them, and if it
tells that every file went through, these are the given files and nothing is left over. -/
def Party.Keeps (files : List FileReport) (past : List (Act (Party δ φ))) (s : Party δ φ) :
    Prop :=
  ∃ done useful, s.session.Books done (reports past).length useful ∧
    ∀ summary, s.Claims summary →
      useful = [] ∧ done = files ∧ ∃ now, summary = s.session.summary now

/-- What a party tells of a run is right if its books are. -/
theorem accounted_of_keeps {spec : List (Act (Party δ φ)) → Party δ φ → Progress → Prop}
    {files : List (Act (Party δ φ)) → List FileReport}
    {own : Party δ φ → φ → Action (Party δ φ)}
    (hlasts : ∀ s step ending, own s step ≠ .stop ending) {env : Surroundings ω}
    {s : Party δ φ} {w : ω}
    (hkeeps : ∀ acts,
      let trace := Action.trace env (fun s => Party.act (own s) s) acts s w
      let run := Action.run env (fun s => Party.act (own s) s) acts s w
      EachReport spec trace ∧ run.state.Keeps (files trace) trace) (acts : Nat) :
    let trace := Action.trace env (fun s => Party.act (own s) s) acts s w
    Accounted spec (files trace) trace
      (Action.run env (fun s => Party.act (own s) s) acts s w) := by
  obtain ⟨hreported, done, useful, hbooks, hclaims⟩ := hkeeps acts
  refine ⟨hreported, hbooks.totalBlocks_eq, ?_, ?_⟩
  · -- Every state of the run is the last one of a shorter run.
    intro act hact
    obtain ⟨sofar, hstate⟩ := Action.exists_state_of_mem_trace hact
    obtain ⟨-, _, _, hbooks', -⟩ := hkeeps sofar
    rw [← hstate]
    exact hbooks'.fileBytes_le
  · intro summary hending
    have hphase := Party.phase_of_ending hlasts hending
    obtain ⟨rfl, hfiles, now, rfl⟩ := hclaims summary (.inr hphase)
    rw [← hfiles]
    exact hbooks.summary now

/-- Whatever the peer and the surroundings do: what senders and receivers tell of their runs is
right. -/
theorem accounted_of_run (env : Surroundings ω) (options : Options) (headers : List FileHeader)
    (moment : Moment) (w : ω) (acts : Nat) :
    let sent := Action.trace env Sender.act acts (Sender.new options headers moment) w
    let received := Action.trace env Receiver.act acts (Receiver.new options moment) w
    Accounted (Sender.ReportedRight headers) (Sender.sentReports headers sent) sent
        (Action.run env Sender.act acts (Sender.new options headers moment) w) ∧
      Accounted Receiver.ReportedRight ((Receiver.closings received).map Receiver.fileReport)
        received (Action.run env Receiver.act acts (Receiver.new options moment) w) := by
  intro sent received
  constructor
  · refine @accounted_of_keeps _ _ _ _ (Sender.sentReports headers) _ Sender.step_ne_stop _ _ _ ?_
      acts
    intro acts
    obtain ⟨done, counted, h⟩ := Sender.audited_trace env options headers moment w acts
    refine ⟨h.reported, done, _, h.books, ?_⟩
    intro summary hclaims
    obtain ⟨rfl, hdone, hnow⟩ := h.claims summary hclaims
    exact ⟨rfl, hdone, hnow⟩
  · refine @accounted_of_keeps _ _ _ _
      (fun past => (Receiver.closings past).map Receiver.fileReport) _ Receiver.step_ne_stop _ _ _
      ?_ acts
    intro acts
    obtain ⟨counted, h⟩ := Receiver.audited_trace env options moment w acts
    refine ⟨h.reported, _, counted, h.books, ?_⟩
    intro summary hclaims
    obtain ⟨hcounted, hnow⟩ := h.claims summary hclaims
    exact ⟨hcounted, rfl, hnow⟩

/-- A file of one byte goes through, and so it is told by the sender and by a receiver that does not
know its length. -/
theorem accounted_of_run_completed :
    let setup : Script.Setup MemorySink := { sink := MemorySink.sink }
    let options : Options := { protocol := .xmodem, variant := .checksum }
    let block := Block.padded 1 [97] .short options.pad
    let asking := Script.World.new setup
      { initial := [⟨7, .ok [Control.nak.byte, Control.ack.byte, Control.ack.byte]⟩] }
      [{ remaining := [97] }] {}
    let sending := Script.World.new setup
      { initial := [⟨7, .ok (block.encode .checksum ++ [Control.eot.byte])⟩] } [] {}
    let sent := Action.trace (Script.World.surroundings setup) Sender.act 30
      (Sender.new options [{ name := "a" }] asking.moment) asking
    let sender := Action.run (Script.World.surroundings setup) Sender.act 30
      (Sender.new options [{ name := "a" }] asking.moment) asking
    let received := Action.trace (Script.World.surroundings setup) Receiver.act 30
      (Receiver.new options sending.moment) sending
    let receiver := Action.run (Script.World.surroundings setup) Receiver.act 30
      (Receiver.new options sending.moment) sending
    sender.ending = some (.ok (.completed ⟨[⟨some "a", 1⟩], 1, 1, 0, 7⟩)) ∧
      receiver.ending = some (.ok (.completed ⟨[⟨none, 1⟩], 1, 1, 0, 7⟩)) ∧
      Accounted (Sender.ReportedRight [{ name := "a" }])
        (Sender.sentReports [{ name := "a" }] sent) sent sender ∧
      Accounted Receiver.ReportedRight ((Receiver.closings received).map Receiver.fileReport)
        received receiver := by
  intro setup options block asking sending sent sender received receiver
  refine ⟨by decide +kernel, by decide +kernel, ?_, ?_⟩
  · exact (accounted_of_run _ options [{ name := "a" }] asking.moment asking 30).1
  · exact (accounted_of_run _ options [] sending.moment sending 30).2

end BlockTransfer
